import Mathlib.Algebra.BigOperators.Group.Finset.Basic
import Mathlib.Algebra.Order.BigOperators.Group.Multiset
import Mathlib.Data.Finset.Card
import Mathlib.Logic.Function.Basic
import Slotted.Proofs.Calls
import Slotted.Proofs.ScalarBag.Operations

/-!
# Bags of scalars are finite multisets of keys

The mathematical object that a bag of scalars implements is a finite multiset of keys whose size is
at most `maxWord`, with a value stored for each key: the one whose addition made the key present.
A call that would make the multiset larger than that is refused, and then nothing is changed.

## Main definitions

* `KeyBag` — finite multisets of keys, with a stored value for each.
* `BagCall`, `BagCall.run` — the calls on a bag of scalars.
* `KeyBag.Step` — how a finite multiset of keys responds to a call.
* `ScalarBag.Represents` — the relation between the two.

## Main results

* `ScalarBag.Represents.exists_step` — a call on a bag of scalars is followed by a step.
* `ScalarBag.distinctSize_ofList` — how many values the bag of a list has.
* `ScalarBag.run_refines_keyBag` — every sequence of calls on a new bag of scalars gets the
  responses of a finite multiset of keys.
-/

namespace Slotted

variable {k : Kind}

/-- A finite multiset of keys, with a stored value for each of them. -/
structure KeyBag (k : Kind) where
  /-- The keys, each as often as it occurs. -/
  counts : Multiset UInt64
  /-- The value that stands for a key. -/
  stored : UInt64 → Scalar k
  /-- The value that stands for a key of the multiset has that key. -/
  key_stored : ∀ {x}, x ∈ counts → (stored x).key = x

namespace KeyBag

/-- The value is the one stored for its key, which occurs `n` times. -/
def Holds (A : KeyBag k) (v : Scalar k) (n : ℕ) : Prop :=
  0 < n ∧ A.counts.count v.key = n ∧ A.stored v.key = v

/-- The multiset without keys. -/
def empty : KeyBag k := ⟨0, fun _ => default, fun h => absurd h (Multiset.notMem_zero _)⟩

/-- Makes the key of a value occur `n` times; the value is stored if the key did not occur. -/
def withCount (A : KeyBag k) (v : Scalar k) (n : ℕ) : KeyBag k where
  counts := A.counts.filter (· ≠ v.key) + Multiset.replicate n v.key
  stored := if v.key ∈ A.counts then A.stored else Function.update A.stored v.key v
  key_stored := by
    intro x hx
    rcases Multiset.mem_add.1 hx with hmem | hmem
    · obtain ⟨hmem, hne⟩ := Multiset.mem_filter.1 hmem
      split
      · exact A.key_stored hmem
      · rw [Function.update_of_ne hne]
        exact A.key_stored hmem
    · rw [Multiset.eq_of_mem_replicate hmem]
      split
      · next h => exact A.key_stored h
      · rw [Function.update_self]

/-- Makes the key of a value occur `n` times more. -/
def more (A : KeyBag k) (v : Scalar k) (n : ℕ) : KeyBag k :=
  A.withCount v (A.counts.count v.key + n)

/-- Makes the key of a value occur `n` times less, as far as it occurs. -/
def less (A : KeyBag k) (v : Scalar k) (n : ℕ) : KeyBag k :=
  A.withCount v (A.counts.count v.key - n)

/-- Makes the keys of a list of values absent. -/
def without (A : KeyBag k) (vs : List (Scalar k)) : KeyBag k where
  counts := A.counts.filter (· ∉ vs.map Scalar.key)
  stored := A.stored
  key_stored := fun hx => A.key_stored (Multiset.mem_of_mem_filter hx)

/-- The response to a call that would overflow. -/
def overflow : Response := .refused (.abort .countOverflow)

/-- Makes the key of each of a list of values occur once more, up to the first that overflows. -/
def addAll (A : KeyBag k) : List (Scalar k) → Response × KeyBag k
  | [] => (.done, A)
  | v :: vs => if A.counts.card + 1 ≤ maxWord then (A.more v 1).addAll vs else (overflow, A)

section

variable {A : KeyBag k} {v w : Scalar k} {n m : ℕ}

theorem not_holds_empty (v : Scalar k) (n : ℕ) : ¬ (empty : KeyBag k).Holds v n := by
  rintro ⟨hpos, hcount, -⟩
  exact absurd hcount (by simpa [empty] using hpos.ne)

theorem Holds.mem (h : A.Holds v n) : v.key ∈ A.counts := by
  rw [← Multiset.count_pos, h.2.1]
  exact h.1

theorem holds_stored {x : UInt64} (h : x ∈ A.counts) :
    A.Holds (A.stored x) (A.counts.count x) := by
  rw [Holds, A.key_stored h]
  exact ⟨Multiset.count_pos.2 h, rfl, rfl⟩

theorem count_withCount_self (A : KeyBag k) (v : Scalar k) (n : ℕ) :
    (A.withCount v n).counts.count v.key = n := by
  rw [withCount, Multiset.count_add, Multiset.count_replicate_self,
    Multiset.count_eq_zero_of_notMem, Nat.zero_add]
  exact fun h => (Multiset.mem_filter.1 h).2 rfl

theorem count_withCount_of_ne {x : UInt64} (hx : x ≠ v.key) :
    (A.withCount v n).counts.count x = A.counts.count x := by
  rw [withCount, Multiset.count_add, Multiset.count_filter_of_pos (p := (· ≠ v.key)) hx,
    Multiset.count_replicate, if_neg hx.symm, Nat.add_zero]

theorem card_withCount (A : KeyBag k) (v : Scalar k) (n : ℕ) :
    (A.withCount v n).counts.card + A.counts.count v.key = A.counts.card + n := by
  have hsplit := congrArg Multiset.card (Multiset.filter_add_not (· = v.key) A.counts)
  rw [Multiset.card_add, Multiset.filter_eq', Multiset.card_replicate] at hsplit
  rw [withCount, Multiset.card_add, Multiset.card_replicate]
  simp only [ne_eq]
  omega

/-- So the condition on an addition is one on the size of the multiset after it. -/
theorem card_more (A : KeyBag k) (v : Scalar k) (n : ℕ) :
    (A.more v n).counts.card = A.counts.card + n := by
  have hcard := A.card_withCount v (A.counts.count v.key + n)
  rw [more]
  omega

/-- What is held after a count was changed: what has other keys, and the value with the new count;
for that stands the stored one, if the key did occur. -/
theorem holds_withCount_iff :
    (A.withCount v n).Holds w m ↔ A.Holds w m ∧ w.key ≠ v.key ∨
      n ≠ 0 ∧ m = n ∧ w = if v.key ∈ A.counts then A.stored v.key else v := by
  by_cases hkey : w.key = v.key
  · -- the old count is forgotten; whether there was one says which value is stored
    rw [Holds, hkey, count_withCount_self, withCount]
    by_cases hmem : v.key ∈ A.counts
    · simp only [if_pos hmem]
      constructor
      · rintro ⟨hpos, rfl, hw⟩
        exact Or.inr ⟨hpos.ne', rfl, hw.symm⟩
      · rintro (⟨-, hne⟩ | ⟨hn, rfl, hw⟩)
        · exact absurd rfl hne
        · exact ⟨Nat.pos_of_ne_zero hn, rfl, hw.symm⟩
    · simp only [if_neg hmem, Function.update_self]
      constructor
      · rintro ⟨hpos, rfl, hw⟩
        exact Or.inr ⟨hpos.ne', rfl, hw.symm⟩
      · rintro (⟨-, hne⟩ | ⟨hn, rfl, hw⟩)
        · exact absurd rfl hne
        · exact ⟨Nat.pos_of_ne_zero hn, rfl, hw.symm⟩
  · -- nothing has changed for another key
    have hstored : (A.withCount v n).stored w.key = A.stored w.key := by
      rw [withCount]
      simp only
      split
      · rfl
      · rw [Function.update_of_ne hkey]
    rw [Holds, count_withCount_of_ne hkey, hstored]
    constructor
    · intro h
      exact Or.inl ⟨h, hkey⟩
    · rintro (⟨h, -⟩ | ⟨-, -, hw⟩)
      · exact h
      · rw [hw] at hkey
        split at hkey
        · next hmem => exact absurd (A.key_stored hmem) hkey
        · exact absurd rfl hkey

theorem holds_without_iff {vs : List (Scalar k)} :
    (A.without vs).Holds w m ↔ A.Holds w m ∧ ∀ v ∈ vs, v.key ≠ w.key := by
  unfold Holds without
  simp only
  by_cases hmem : w.key ∈ vs.map Scalar.key
  · have hnone : w.key ∉ A.counts.filter (· ∉ vs.map Scalar.key) :=
      fun h => Multiset.of_mem_filter h hmem
    rw [Multiset.count_eq_zero_of_notMem hnone]
    obtain ⟨v, hv, hkey⟩ := List.mem_map.1 hmem
    constructor
    · rintro ⟨hpos, hzero, -⟩
      exact absurd hzero hpos.ne
    · rintro ⟨-, hne⟩
      exact absurd hkey (hne v hv)
  · rw [Multiset.count_filter_of_pos (p := (· ∉ vs.map Scalar.key)) hmem]
    refine ⟨fun h => ⟨h, fun v hv hkey => hmem ?_⟩, And.left⟩
    exact List.mem_map.2 ⟨v, hv, hkey⟩

theorem counts_more_one (A : KeyBag k) (v : Scalar k) :
    (A.more v 1).counts = v.key ::ₘ A.counts := by
  ext x
  rw [more]
  by_cases hx : x = v.key
  · rw [hx, count_withCount_self, Multiset.count_cons_self]
  · rw [count_withCount_of_ne hx, Multiset.count_cons_of_ne hx]

theorem counts_addAll {vs : List (Scalar k)} (hle : A.counts.card + vs.length ≤ maxWord) :
    (A.addAll vs).2.counts = A.counts + (vs.map Scalar.key : List UInt64) := by
  induction vs generalizing A with
  | nil => exact (Multiset.add_zero A.counts).symm
  | cons v vs ih =>
    rw [List.length_cons] at hle
    have hcard := A.card_more v 1
    rw [addAll, if_pos (by omega), ih (by omega), counts_more_one, List.map_cons,
      ← Multiset.cons_coe, Multiset.cons_add, Multiset.add_cons]

end

end KeyBag

/-! ### Calls and what they are to do -/

/-- A call on a bag of scalars. -/
inductive BagCall (k : Kind) : Type 1 where
  /-- Goes on with a new bag. -/
  | new
  /-- Goes on with a new bag that has room for `n` distinct values. -/
  | withCapacity (n : ℕ)
  /-- Adds an occurrence of a value. -/
  | add (v : Scalar k)
  /-- Adds `n` occurrences of a value. -/
  | addOccurrences (v : Scalar k) (n : ℕ)
  /-- Removes an occurrence of a value. -/
  | remove (v : Scalar k)
  /-- Removes up to `n` occurrences of a value. -/
  | removeOccurrences (v : Scalar k) (n : ℕ)
  /-- Makes the count of a value `n`. -/
  | setOccurrences (v : Scalar k) (n : ℕ)
  /-- Asks for the count of a value. -/
  | occurrencesOf (v : Scalar k)
  /-- Asks for a value. -/
  | contains (v : Scalar k)
  /-- Removes the values that a predicate rejects; the predicate has a state of its own. -/
  | retain {σ : Type} (keep : Scalar k → ℕ → StateM σ Bool) (start : σ)
  /-- Removes every occurrence. -/
  | clear
  /-- Makes room for `n` more distinct values. -/
  | reserve (n : ℕ)
  /-- Adds a list of values. -/
  | extend (vs : List (Scalar k))
  /-- Asks for the number of occurrences. -/
  | size
  /-- Asks for the number of distinct values. -/
  | distinctSize

/-- The response that a result of an operation makes. -/
def Response.ofResult {α : Type} (f : α → Response) : Except Abort α → Response
  | .ok a => f a
  | .error a => .refused (.abort a)

/-- Makes a call.  One that is refused room leaves the bag as it was. -/
def BagCall.run : BagCall k → ScalarBag k → Response × ScalarBag k
  | .new, _ => (.done, .empty)
  | .withCapacity n, b =>
    match ScalarBag.withCapacity n with
    | .ok b' => (.done, b')
    | .error a => (.refused (.abort a), b)
  | .add v, b => (.ofResult .flag (b.add v).val.1, (b.add v).val.2)
  | .addOccurrences v n, b =>
    (.ofResult .number (b.addOccurrences v n).val.1, (b.addOccurrences v n).val.2)
  | .remove v, b => (.flag (b.remove v).1, (b.remove v).2)
  | .removeOccurrences v n, b => (.flag (b.removeOccurrences v n).1, (b.removeOccurrences v n).2)
  | .setOccurrences v n, b =>
    (.ofResult .number (b.setOccurrences v n).val.1, (b.setOccurrences v n).val.2)
  | .occurrencesOf v, b => (.number (b.occurrencesOf v), b)
  | .contains v, b => (.flag (b.contains v), b)
  | .retain keep start, b => (.done, ((b.retainM keep).run start).1)
  | .clear, b => (.done, b.clear)
  | .reserve n, b =>
    match b.reserve n with
    | .ok b' => (.done, b'.val)
    | .error e => (.refused e, b)
  | .extend vs, b => (.ofResult (fun _ => .done) (b.extend vs).val.1, (b.extend vs).val.2)
  | .size, b => (.number b.size, b)
  | .distinctSize, b => (.number b.distinctSize, b)

namespace KeyBag

/-- How a finite multiset of keys responds to a call, and what it is after it. -/
inductive Step : KeyBag k → BagCall k → Response → KeyBag k → Prop where
  /-- A new bag is empty. -/
  | new (A) : Step A .new .done .empty
  /-- So is one with room. -/
  | withCapacity (A n) : Step A (.withCapacity n) .done .empty
  /-- Room for a great many values may be refused. -/
  | withCapacity_refused (A) {n} (why) :
      Table.roomLimit ≤ n → Step A (.withCapacity n) (.refused why) A
  /-- An addition says whether the key was absent, and makes it occur once more. -/
  | add (A v) : A.counts.card + 1 ≤ maxWord →
      Step A (.add v) (.flag (v.key ∉ A.counts)) (A.more v 1)
  /-- An addition past the greatest word is refused. -/
  | add_refused (A v) : maxWord < A.counts.card + 1 → Step A (.add v) overflow A
  /-- An addition of several occurrences answers with the new count. -/
  | addOccurrences (A v n) : A.counts.card + n ≤ maxWord →
      Step A (.addOccurrences v n) (.number (A.counts.count v.key + n)) (A.more v n)
  /-- It is refused past the greatest word. -/
  | addOccurrences_refused (A v n) : maxWord < A.counts.card + n →
      Step A (.addOccurrences v n) overflow A
  /-- A removal says whether the key was present, and makes it occur once less. -/
  | remove (A v) : Step A (.remove v) (.flag (v.key ∈ A.counts)) (A.less v 1)
  /-- A removal of several occurrences says whether it removed any, and stops at none. -/
  | removeOccurrences (A v n) :
      Step A (.removeOccurrences v n) (.flag (n ≠ 0 ∧ v.key ∈ A.counts)) (A.less v n)
  /-- Setting a count answers with the count before. -/
  | setOccurrences (A v n) : (A.withCount v n).counts.card ≤ maxWord →
      Step A (.setOccurrences v n) (.number (A.counts.count v.key)) (A.withCount v n)
  /-- It is refused past the greatest word. -/
  | setOccurrences_refused (A v n) : maxWord < (A.withCount v n).counts.card →
      Step A (.setOccurrences v n) overflow A
  /-- The count of a value is that of its key. -/
  | occurrencesOf (A v) : Step A (.occurrencesOf v) (.number (A.counts.count v.key)) A
  /-- A value is contained if its key is present. -/
  | contains (A v) : Step A (.contains v) (.flag (v.key ∈ A.counts)) A
  /-- A predicate is asked once for each of the stored values, with its count, in some order, and
  the keys of those that it rejects are absent after that. -/
  | retain (A) {σ : Type} (keep : Scalar k → ℕ → StateM σ Bool) (start : σ)
      (order : List (Scalar k × ℕ)) : order.Nodup → (∀ v n, (v, n) ∈ order ↔ A.Holds v n) →
      Step A (.retain keep start) .done
        (A.without (((rejectedM (fun c => keep c.1 c.2) order).run start).1.map Prod.fst))
  /-- Clearing leaves the empty bag. -/
  | clear (A) : Step A .clear .done .empty
  /-- Making room changes nothing. -/
  | reserve (A n) : Step A (.reserve n) .done A
  /-- Nor does failing to make it. -/
  | reserve_refused (A n why) : Step A (.reserve n) (.refused why) A
  /-- An extension is a sequence of additions, up to the first that is refused. -/
  | extend (A vs) : Step A (.extend vs) (A.addAll vs).1 (A.addAll vs).2
  /-- The number of occurrences is the size of the multiset. -/
  | size (A) : Step A .size (.number A.counts.card) A
  /-- The number of distinct values is the number of keys. -/
  | distinctSize (A) : Step A .distinctSize (.number A.counts.toFinset.card) A

end KeyBag

namespace ScalarBag

/-! ### The relation -/

/-- A bag of scalars stands for a finite multiset of keys: it is sound, and holds for each key the
value stored for it, with its count. -/
structure Represents (b : ScalarBag k) (A : KeyBag k) : Prop where
  /-- The bag is sound. -/
  sound : b.Sound
  /-- The table holds the stored values. -/
  mem_contents_iff : ∀ v n, (v, n) ∈ b.table.contents ↔ A.Holds v n

namespace Represents

variable {b b' : ScalarBag k} {A : KeyBag k} {v w w' : Scalar k} {m n : ℕ}
  {R : Multiset (Scalar k × ℕ)}

theorem of_contents_eq_zero (hb : b.Sound) (h : b.table.contents = 0) : b.Represents .empty := by
  refine ⟨hb, fun v n => ?_⟩
  rw [h]
  exact iff_of_false (Multiset.notMem_zero _) (KeyBag.not_holds_empty v n)

theorem of_contents_eq (h : b.Represents A) (hb' : b'.Sound)
    (hcontents : b'.table.contents = b.table.contents) : b'.Represents A := by
  refine ⟨hb', fun v n => ?_⟩
  rw [hcontents]
  exact h.mem_contents_iff v n

theorem empty : (ScalarBag.empty : ScalarBag k).Represents .empty :=
  of_contents_eq_zero sound_empty (Table.contents_ofSlots 0)

theorem mem_keys_iff (h : b.Represents A) {x : UInt64} : x ∈ b.table.keys ↔ x ∈ A.counts := by
  rw [Table.keys, Multiset.mem_map]
  constructor
  · rintro ⟨⟨v, n⟩, hv, rfl⟩
    exact ((h.mem_contents_iff v n).1 hv).mem
  · intro hx
    exact ⟨(A.stored x, A.counts.count x), (h.mem_contents_iff _ _).2 (KeyBag.holds_stored hx),
      A.key_stored hx⟩

theorem keys_eq (h : b.Represents A) : b.table.keys = A.counts.toFinset.val := by
  refine (Multiset.Nodup.ext h.sound.table.nodup_keys A.counts.toFinset.nodup).2 fun x => ?_
  rw [h.mem_keys_iff, Finset.mem_val, Multiset.mem_toFinset]

/-- The total is the size of the multiset. -/
theorem total_eq_card (h : b.Represents A) : b.total = A.counts.card := by
  -- the counts in the table are those of the keys, each taken once
  have hcounts : b.table.contents.map Prod.snd
      = b.table.keys.map fun x => A.counts.count x := by
    rw [Table.keys, Multiset.map_map]
    refine Multiset.map_congr rfl fun c hc => ?_
    exact ((h.mem_contents_iff c.1 c.2).1 hc).2.1.symm
  rw [h.sound.total_eq, countSum, hcounts, h.keys_eq]
  exact Multiset.toFinset_sum_count_eq A.counts

theorem distinctSize_eq_card (h : b.Represents A) : b.distinctSize = A.counts.toFinset.card := by
  rw [ScalarBag.distinctSize_eq_card h.sound, h.keys_eq]
  rfl

/-! ### The entry of one value -/

theorem count_eq (h : b.Represents A) (hs : b.Splits v w m R) : A.counts.count v.key = m := by
  by_cases hm : m = 0
  · rw [hm, Multiset.count_eq_zero, ← h.mem_keys_iff, hs.mem_keys_iff, not_not]
    exact hm
  · rw [← hs.key_eq]
    exact ((h.mem_contents_iff w m).1 (hs.mem_contents hm)).2.1

theorem mem_counts_iff (h : b.Represents A) (hs : b.Splits v w m R) :
    v.key ∈ A.counts ↔ m ≠ 0 := by
  rw [← h.mem_keys_iff, hs.mem_keys_iff]

/-- The value that stands for a key is the one stored for it. -/
theorem eq_stored (h : b.Represents A) (hs : b.Splits v w m R) :
    w = if v.key ∈ A.counts then A.stored v.key else v := by
  by_cases hm : m = 0
  · rw [if_neg (by rw [h.mem_counts_iff hs]; exact not_not.2 hm), hs.eq_of_zero hm]
  · rw [if_pos ((h.mem_counts_iff hs).2 hm), ← hs.key_eq]
    exact ((h.mem_contents_iff w m).1 (hs.mem_contents hm)).2.2.symm

theorem card_withCount (h : b.Represents A) (hs : b.Splits v w m R) (n : ℕ) :
    (A.withCount v n).counts.card = countSum R + n := by
  have hcard := A.card_withCount v n
  rw [h.count_eq hs, ← h.total_eq_card, hs.total_eq h.sound] at hcard
  omega

/-- A bag that differs in the entry of one value stands for the multiset with another count. -/
theorem withCount (h : b.Represents A) (hs : b.Splits v w m R) (hb' : b'.Sound)
    (hs' : b'.Splits v w' n R) (hw : n ≠ 0 → w' = w) : b'.Represents (A.withCount v n) := by
  refine ⟨hb', fun u q => ?_⟩
  rw [hs'.contents_eq, Multiset.mem_add, hs.mem_rest_iff, h.mem_contents_iff,
    KeyBag.holds_withCount_iff, mem_single_iff, ← h.eq_stored hs, Prod.mk.injEq]
  -- both sides are the new entry of the value, or an old entry with another key
  constructor
  · rintro (⟨⟨rfl, rfl⟩, hq⟩ | hu)
    · exact Or.inr ⟨hq, rfl, hw hq⟩
    · exact Or.inl hu
  · rintro (hu | ⟨hn, rfl, rfl⟩)
    · exact Or.inr hu
    · exact Or.inl ⟨⟨(hw hn).symm, rfl⟩, hn⟩

/-! ### Single calls -/

theorem addOccurrences (h : b.Represents A) (v : Scalar k) (hle : A.counts.card + n ≤ maxWord) :
    (b.addOccurrences v n).val.1 = .ok (A.counts.count v.key + n) ∧
      (b.addOccurrences v n).val.2.Represents (A.more v n) := by
  obtain ⟨w, m, R, hs⟩ := h.sound.exists_splits v
  rw [← h.total_eq_card] at hle
  obtain ⟨b', hval, hsound, hs'⟩ := hs.exists_addOccurrences h.sound hle
  rw [hval, KeyBag.more, h.count_eq hs]
  exact ⟨rfl, h.withCount hs hsound hs' fun _ => rfl⟩

theorem addOccurrences_refused (h : b.Represents A) (v : Scalar k)
    (hover : maxWord < A.counts.card + n) :
    b.addOccurrences v n = pure (.error .countOverflow, b) := by
  rw [← h.total_eq_card] at hover
  exact addOccurrences_of_overflow h.sound v hover

theorem add (h : b.Represents A) (v : Scalar k) (hle : A.counts.card + 1 ≤ maxWord) :
    (b.add v).val.1 = .ok (decide (v.key ∉ A.counts)) ∧
      (b.add v).val.2.Represents (A.more v 1) := by
  obtain ⟨w, m, R, hs⟩ := h.sound.exists_splits v
  rw [← h.total_eq_card] at hle
  obtain ⟨b', hval, hsound, hs'⟩ := hs.exists_add h.sound hle
  rw [hval, KeyBag.more, h.count_eq hs]
  refine ⟨?_, h.withCount hs hsound hs' fun _ => rfl⟩
  simp [h.mem_counts_iff hs]

theorem add_refused (h : b.Represents A) (v : Scalar k) (hover : maxWord < A.counts.card + 1) :
    b.add v = pure (.error .countOverflow, b) := by
  rw [← h.total_eq_card] at hover
  exact add_of_overflow h.sound v hover

theorem removeOccurrences (h : b.Represents A) (v : Scalar k) (n : ℕ) :
    (b.removeOccurrences v n).1 = decide (n ≠ 0 ∧ v.key ∈ A.counts) ∧
      (b.removeOccurrences v n).2.Represents (A.less v n) := by
  obtain ⟨w, m, R, hs⟩ := h.sound.exists_splits v
  obtain ⟨b', w', hval, hsound, hs', hw⟩ := hs.exists_removeOccurrences h.sound n
  rw [hval, KeyBag.less, h.count_eq hs]
  refine ⟨?_, h.withCount hs hsound hs' hw⟩
  simp [h.mem_counts_iff hs]

theorem setOccurrences (h : b.Represents A) (v : Scalar k)
    (hle : (A.withCount v n).counts.card ≤ maxWord) :
    (b.setOccurrences v n).val.1 = .ok (A.counts.count v.key) ∧
      (b.setOccurrences v n).val.2.Represents (A.withCount v n) := by
  obtain ⟨w, m, R, hs⟩ := h.sound.exists_splits v
  rw [h.card_withCount hs] at hle
  obtain ⟨b', w', hval, hsound, hs', hw⟩ := hs.exists_setOccurrences h.sound hle
  rw [hval, h.count_eq hs]
  exact ⟨rfl, h.withCount hs hsound hs' hw⟩

theorem setOccurrences_refused (h : b.Represents A) (v : Scalar k)
    (hover : maxWord < (A.withCount v n).counts.card) :
    b.setOccurrences v n = pure (.error .countOverflow, b) := by
  obtain ⟨w, m, R, hs⟩ := h.sound.exists_splits v
  rw [h.card_withCount hs] at hover
  exact setOccurrences_of_overflow hs h.sound hover

theorem extend (h : b.Represents A) (vs : List (Scalar k)) :
    Response.ofResult (fun _ => .done) (b.extend vs).val.1 = (A.addAll vs).1 ∧
      (b.extend vs).val.2.Represents (A.addAll vs).2 := by
  induction vs generalizing b A with
  | nil => exact ⟨rfl, h⟩
  | cons v vs ih =>
    rw [ScalarBag.extend, KeyBag.addAll, Traced.val_bind]
    by_cases hle : A.counts.card + 1 ≤ maxWord
    · -- the addition goes through, and the rest of the list goes on from there
      obtain ⟨hval, hnext⟩ := h.add v hle
      rw [if_pos hle]
      rcases hb' : (b.add v).val with ⟨r, b'⟩
      rw [hb'] at hval hnext
      simp only at hval hnext
      subst hval
      exact ih hnext
    · rw [if_neg hle, h.add_refused v (Nat.lt_of_not_le hle)]
      exact ⟨rfl, h⟩

theorem retainM {σ : Type} (h : b.Represents A) (keep : Scalar k → ℕ → StateM σ Bool)
    (start : σ) :
    ((b.retainM keep).run start).1.Represents
      (A.without
        (((rejectedM (fun c => keep c.1 c.2) b.distinct).run start).1.map Prod.fst)) := by
  obtain ⟨b', hrun, hsound, hcontents⟩ := exists_retainM h.sound keep start
  rw [hrun]
  refine ⟨hsound, fun v n => ?_⟩
  rw [h.sound.table.mem_iff_of_contents_eq_add hcontents, h.mem_contents_iff,
    KeyBag.holds_without_iff]
  simp

theorem nodup_distinct (h : b.Represents A) : b.distinct.Nodup := by
  have hnodup := h.sound.table.nodup_keys
  rw [Table.keys, ← coe_distinct] at hnodup
  exact Multiset.coe_nodup.1 hnodup.of_map

/-- A call on a bag of scalars is followed by a step of the finite multiset that it stands for. -/
theorem exists_step (h : b.Represents A) (c : BagCall k) :
    ∃ B, KeyBag.Step A c (c.run b).1 B ∧ (c.run b).2.Represents B := by
  cases c with
  | new => exact ⟨_, .new A, empty⟩
  | withCapacity n =>
    rw [BagCall.run]
    rcases withCapacity_cases k n with ⟨b', hb', hsound, hcontents⟩ | ⟨hlimit, a, ha⟩
    · rw [hb']
      exact ⟨_, .withCapacity A n, of_contents_eq_zero hsound hcontents⟩
    · rw [ha]
      exact ⟨A, .withCapacity_refused A (.abort a) hlimit, h⟩
  | add v =>
    rw [BagCall.run]
    by_cases hle : A.counts.card + 1 ≤ maxWord
    · obtain ⟨hval, hnext⟩ := h.add v hle
      rw [hval]
      exact ⟨_, .add A v hle, hnext⟩
    · rw [h.add_refused v (Nat.lt_of_not_le hle)]
      exact ⟨A, .add_refused A v (Nat.lt_of_not_le hle), h⟩
  | addOccurrences v n =>
    rw [BagCall.run]
    by_cases hle : A.counts.card + n ≤ maxWord
    · obtain ⟨hval, hnext⟩ := h.addOccurrences v hle
      rw [hval]
      exact ⟨_, .addOccurrences A v n hle, hnext⟩
    · rw [h.addOccurrences_refused v (Nat.lt_of_not_le hle)]
      exact ⟨A, .addOccurrences_refused A v n (Nat.lt_of_not_le hle), h⟩
  | remove v =>
    obtain ⟨hflag, hnext⟩ := h.removeOccurrences v 1
    have hone : decide (1 ≠ 0 ∧ v.key ∈ A.counts) = decide (v.key ∈ A.counts) := by simp
    rw [BagCall.run, ScalarBag.remove, hflag, hone]
    exact ⟨_, .remove A v, hnext⟩
  | removeOccurrences v n =>
    obtain ⟨hflag, hnext⟩ := h.removeOccurrences v n
    rw [BagCall.run, hflag]
    exact ⟨_, .removeOccurrences A v n, hnext⟩
  | setOccurrences v n =>
    rw [BagCall.run]
    by_cases hle : (A.withCount v n).counts.card ≤ maxWord
    · obtain ⟨hval, hnext⟩ := h.setOccurrences v hle
      rw [hval]
      exact ⟨_, .setOccurrences A v n hle, hnext⟩
    · rw [h.setOccurrences_refused v (Nat.lt_of_not_le hle)]
      exact ⟨A, .setOccurrences_refused A v n (Nat.lt_of_not_le hle), h⟩
  | occurrencesOf v =>
    obtain ⟨w, m, R, hs⟩ := h.sound.exists_splits v
    refine ⟨A, ?_, h⟩
    rw [BagCall.run, hs.occurrencesOf_eq h.sound, ← h.count_eq hs]
    exact .occurrencesOf A v
  | contains v =>
    obtain ⟨w, m, R, hs⟩ := h.sound.exists_splits v
    have hflag : decide (m ≠ 0) = decide (v.key ∈ A.counts) := by
      rw [decide_eq_decide]
      exact (h.mem_counts_iff hs).symm
    refine ⟨A, ?_, h⟩
    rw [BagCall.run, hs.contains_eq h.sound, hflag]
    exact .contains A v
  | retain keep start =>
    refine ⟨_, .retain A keep start b.distinct h.nodup_distinct fun v n => ?_,
      h.retainM keep start⟩
    rw [mem_distinct_iff]
    exact h.mem_contents_iff v n
  | clear => exact ⟨_, .clear A, of_contents_eq_zero h.sound.clear (Table.contents_clear _)⟩
  | reserve n =>
    rw [BagCall.run]
    cases hr : b.reserve n with
    | error e => exact ⟨A, .reserve_refused A n e, h⟩
    | ok r =>
      obtain ⟨hsound, hcontents⟩ := sound_reserve h.sound hr
      exact ⟨A, .reserve A n, h.of_contents_eq hsound hcontents⟩
  | extend vs =>
    obtain ⟨hval, hnext⟩ := h.extend vs
    rw [BagCall.run, hval]
    exact ⟨_, .extend A vs, hnext⟩
  | size =>
    refine ⟨A, ?_, h⟩
    rw [BagCall.run, ScalarBag.size, h.total_eq_card]
    exact .size A
  | distinctSize =>
    refine ⟨A, ?_, h⟩
    rw [BagCall.run, h.distinctSize_eq_card]
    exact .distinctSize A

end Represents

/-- The bag of a list of values has as many distinct values as these have keys. -/
theorem distinctSize_ofList {vs : List (Scalar k)} (hle : vs.length ≤ maxWord) :
    (ofList vs).val.2.distinctSize = (vs.map Scalar.key).toFinset.card := by
  have hempty : (KeyBag.empty : KeyBag k).counts.card + vs.length ≤ maxWord := by
    simpa [KeyBag.empty]
  rw [ofList, (Represents.empty.extend vs).2.distinctSize_eq_card, KeyBag.counts_addAll hempty]
  exact congrArg (fun m => (Multiset.toFinset m).card) (Multiset.zero_add _)

/-! ### Sequences of calls -/

/-- The responses to a sequence of calls on a new bag, and the bag after it. -/
def after (calls : List (BagCall k)) : List Response × ScalarBag k :=
  runCalls BagCall.run calls .empty

/-- **A bag of scalars refines a finite multiset of keys.**  Whatever the calls on a new bag are,
the responses are those of a finite multiset of keys, and the entries are the values stored for
them, each with its count.  No count is zero, and the total is their sum and a machine word.  An
addition that would pass the greatest word changes nothing, not even the layout. -/
theorem run_refines_keyBag (calls : List (BagCall k)) :
    ∃ A : KeyBag k, Run KeyBag.Step .empty calls (after calls).1 A ∧
      (∀ v n, (v, n) ∈ (after calls).2.distinct ↔ A.Holds v n) ∧
      ((after calls).2.distinct.map fun c => c.1.key).Nodup ∧
      (∀ c ∈ (after calls).2.distinct, 1 ≤ c.2) ∧
      (after calls).2.total = ((after calls).2.distinct.map Prod.snd).sum ∧
      (after calls).2.total = A.counts.card ∧
      A.counts.card ≤ maxWord ∧
      (∀ v, maxWord < A.counts.card + 1 →
        (after calls).2.add v = pure (.error .countOverflow, (after calls).2)) ∧
      (∀ v n, maxWord < A.counts.card + n →
        (after calls).2.addOccurrences v n = pure (.error .countOverflow, (after calls).2)) ∧
      (∀ v n, maxWord < (A.withCount v n).counts.card →
        (after calls).2.setOccurrences v n = pure (.error .countOverflow, (after calls).2)) ∧
      ∀ n, (after calls).2.distinctSize + n < Table.roomLimit →
        (after calls).2.capacity < 4 * Table.roomLimit →
          ∃ r, (after calls).2.reserve n = .ok r := by
  obtain ⟨A, hrun, hA⟩ := exists_run BagCall.run KeyBag.Step
    (fun b A c h => Represents.exists_step h c) calls Represents.empty
  have hnodup : ((after calls).2.distinct.map fun c => c.1.key).Nodup := by
    have hkeys := hA.sound.table.nodup_keys
    rw [Table.keys, ← coe_distinct] at hkeys
    exact Multiset.coe_nodup.1 hkeys
  have htotal : (after calls).2.total = ((after calls).2.distinct.map Prod.snd).sum := by
    rw [← Multiset.sum_coe, ← Multiset.map_coe, coe_distinct]
    exact hA.sound.total_eq
  refine ⟨A, hrun, fun v n => ?_, hnodup, fun c hc => ?_, htotal, hA.total_eq_card, ?_,
    fun v => hA.add_refused v, fun v n => hA.addOccurrences_refused v,
    fun v n => hA.setOccurrences_refused v, fun n => exists_reserve_eq⟩
  · rw [mem_distinct_iff]
    exact hA.mem_contents_iff v n
  · exact hA.sound.pos c (mem_distinct_iff.1 hc)
  · rw [← hA.total_eq_card]
    exact hA.sound.total_le

end ScalarBag

end Slotted
