import Mathlib.Data.Finset.Basic
import Mathlib.Data.Finset.Card
import Mathlib.Logic.Function.Basic
import Slotted.Proofs.Calls
import Slotted.Proofs.Scalar
import Slotted.Proofs.ScalarSet.Operations

/-!
# Sets of scalars are finite sets of keys

The mathematical object that a set of scalars implements is a finite set of keys, with a value
stored for each of them: the one whose addition made the key present.

## Main definitions

* `KeySet` — finite sets of keys, with a stored value for each.
* `SetCall`, `SetCall.run` — the calls on a set of scalars.
* `KeySet.Step` — how a finite set of keys responds to a call.
* `ScalarSet.Represents` — the relation between the two.

## Main results

* `ScalarSet.Represents.exists_step` — a call on a set of scalars is followed by a step.
* `ScalarSet.size_ofList` — how many elements the set of a list has.
* `ScalarSet.run_refines_keySet` — every sequence of calls on a new set of scalars gets the
  responses of a finite set of keys.
-/

namespace Slotted

variable {k : Kind}

/-- A finite set of keys, with a stored value for each of them. -/
structure KeySet (k : Kind) where
  /-- The keys. -/
  keys : Finset UInt64
  /-- The value that stands for a key. -/
  stored : UInt64 → Scalar k
  /-- The value that stands for a key of the set has that key. -/
  key_stored : ∀ {x}, x ∈ keys → (stored x).key = x

namespace KeySet

/-- The value is the one stored for its key. -/
def Holds (A : KeySet k) (v : Scalar k) : Prop := v.key ∈ A.keys ∧ A.stored v.key = v

/-- The set without keys. -/
def empty : KeySet k := ⟨∅, fun _ => default, fun h => absurd h (Finset.notMem_empty _)⟩

/-- Makes the key of a value present; the value is stored if it was not. -/
def insert (A : KeySet k) (v : Scalar k) : KeySet k where
  keys := Insert.insert v.key A.keys
  stored := if v.key ∈ A.keys then A.stored else Function.update A.stored v.key v
  key_stored := by
    intro x hx
    rcases Finset.mem_insert.1 hx with rfl | hmem
    · split
      · next h => exact A.key_stored h
      · rw [Function.update_self]
    · split
      · exact A.key_stored hmem
      · next h =>
        rw [Function.update_of_ne (by rintro rfl; exact h hmem)]
        exact A.key_stored hmem

/-- Makes the keys of a list of values present, one after the other. -/
def insertAll (A : KeySet k) (vs : List (Scalar k)) : KeySet k := vs.foldl insert A

/-- Makes the keys of a list of values absent. -/
def without (A : KeySet k) (vs : List (Scalar k)) : KeySet k where
  keys := A.keys \ (vs.map Scalar.key).toFinset
  stored := A.stored
  key_stored := fun hx => A.key_stored (Finset.mem_sdiff.1 hx).1

theorem not_holds_empty (v : Scalar k) : ¬ (empty : KeySet k).Holds v :=
  fun h => absurd h.1 (Finset.notMem_empty _)

theorem holds_stored {A : KeySet k} {x : UInt64} (h : x ∈ A.keys) : A.Holds (A.stored x) := by
  rw [Holds, A.key_stored h]
  exact ⟨h, rfl⟩

theorem insert_of_mem {A : KeySet k} {v : Scalar k} (h : v.key ∈ A.keys) : A.insert v = A := by
  obtain ⟨keys, stored, key_stored⟩ := A
  simp only [insert, KeySet.mk.injEq]
  exact ⟨Finset.insert_eq_of_mem h, if_pos h⟩

theorem holds_insert_iff {A : KeySet k} {v w : Scalar k} (h : v.key ∉ A.keys) :
    (A.insert v).Holds w ↔ w = v ∨ A.Holds w := by
  unfold Holds insert
  simp only [if_neg h, Finset.mem_insert]
  by_cases hkey : w.key = v.key
  · rw [hkey, Function.update_self]
    constructor
    · rintro ⟨-, rfl⟩
      exact Or.inl rfl
    · rintro (rfl | ⟨hmem, -⟩)
      · exact ⟨Or.inl rfl, rfl⟩
      · exact absurd hmem h
  · rw [Function.update_of_ne hkey]
    constructor
    · rintro ⟨hmem | hmem, hw⟩
      · exact absurd hmem hkey
      · exact Or.inr ⟨hmem, hw⟩
    · rintro (rfl | ⟨hmem, hw⟩)
      · exact absurd rfl hkey
      · exact ⟨Or.inr hmem, hw⟩

theorem holds_without_iff {A : KeySet k} {vs : List (Scalar k)} {w : Scalar k} :
    (A.without vs).Holds w ↔ A.Holds w ∧ ∀ v ∈ vs, v.key ≠ w.key := by
  unfold Holds without
  simp only [Finset.mem_sdiff, List.mem_toFinset, List.mem_map, not_exists, not_and]
  tauto

theorem keys_insertAll (A : KeySet k) (vs : List (Scalar k)) :
    (A.insertAll vs).keys = A.keys ∪ (vs.map Scalar.key).toFinset := by
  induction vs generalizing A with
  | nil => exact (Finset.union_empty A.keys).symm
  | cons v vs ih =>
    rw [List.map_cons, List.toFinset_cons, Finset.union_insert, ← Finset.insert_union]
    exact ih (A.insert v)

end KeySet

/-! ### Calls and what they are to do -/

/-- A call on a set of scalars. -/
inductive SetCall (k : Kind) : Type 1 where
  /-- Goes on with a new set. -/
  | new
  /-- Goes on with a new set that has room for `n` elements. -/
  | withCapacity (n : ℕ)
  /-- Goes on with a new set of a list of values. -/
  | ofList (vs : List (Scalar k))
  /-- Adds a value. -/
  | add (v : Scalar k)
  /-- Removes a value. -/
  | remove (v : Scalar k)
  /-- Asks for a value. -/
  | contains (v : Scalar k)
  /-- Removes every element. -/
  | clear
  /-- Removes the elements that a predicate rejects; the predicate has a state of its own. -/
  | retain {σ : Type} (keep : Scalar k → StateM σ Bool) (start : σ)
  /-- Makes room for `n` more elements. -/
  | reserve (n : ℕ)
  /-- Adds a list of values. -/
  | extend (vs : List (Scalar k))
  /-- Asks for the number of elements. -/
  | size
  /-- Asks whether there are none. -/
  | isEmpty

/-- Makes a call.  One that is refused leaves the set as it was. -/
def SetCall.run : SetCall k → ScalarSet k → Response × ScalarSet k
  | .new, _ => (.done, .empty)
  | .withCapacity n, s =>
    match ScalarSet.withCapacity n with
    | .ok s' => (.done, s')
    | .error a => (.refused (.abort a), s)
  | .ofList vs, _ => (.done, (ScalarSet.ofList vs).val)
  | .add v, s => (.flag (s.add v).val.1, (s.add v).val.2)
  | .remove v, s => (.flag (s.remove v).1, (s.remove v).2)
  | .contains v, s => (.flag (s.contains v), s)
  | .clear, s => (.done, s.clear)
  | .retain keep start, s => (.done, ((s.retainM keep).run start).1)
  | .reserve n, s =>
    match s.reserve n with
    | .ok s' => (.done, s'.val)
    | .error e => (.refused e, s)
  | .extend vs, s => (.done, (s.extend vs).val)
  | .size, s => (.number s.size, s)
  | .isEmpty, s => (.flag s.isEmpty, s)

/-- How a finite set of keys responds to a call, and what it is after it. -/
inductive KeySet.Step : KeySet k → SetCall k → Response → KeySet k → Prop where
  /-- A new set is empty. -/
  | new (A) : Step A .new .done .empty
  /-- So is one with room. -/
  | withCapacity (A n) : Step A (.withCapacity n) .done .empty
  /-- Room for a great many elements may be refused. -/
  | withCapacity_refused (A) {n} (why) :
      Table.roomLimit ≤ n → Step A (.withCapacity n) (.refused why) A
  /-- The set of a list of values has their keys. -/
  | ofList (A vs) : Step A (.ofList vs) .done (empty.insertAll vs)
  /-- An addition says whether the key was absent, and makes it present. -/
  | add (A v) : Step A (.add v) (.flag (v.key ∉ A.keys)) (A.insert v)
  /-- A removal says whether the key was present, and makes it absent. -/
  | remove (A v) : Step A (.remove v) (.flag (v.key ∈ A.keys)) (A.without [v])
  /-- A value is contained if its key is present. -/
  | contains (A v) : Step A (.contains v) (.flag (v.key ∈ A.keys)) A
  /-- Clearing leaves the empty set. -/
  | clear (A) : Step A .clear .done .empty
  /-- A predicate is asked once for each of the stored values, in some order, and the keys of those
  that it rejects are absent after that. -/
  | retain (A) {σ : Type} (keep : Scalar k → StateM σ Bool) (start : σ) (order : List (Scalar k)) :
      order.Nodup → (∀ v, v ∈ order ↔ A.Holds v) →
      Step A (.retain keep start) .done (A.without ((rejectedM keep order).run start).1)
  /-- Making room changes nothing. -/
  | reserve (A n) : Step A (.reserve n) .done A
  /-- Nor does failing to make it. -/
  | reserve_refused (A n why) : Step A (.reserve n) (.refused why) A
  /-- An extension is a sequence of additions. -/
  | extend (A vs) : Step A (.extend vs) .done (A.insertAll vs)
  /-- The number of elements is the number of keys. -/
  | size (A) : Step A .size (.number A.keys.card) A
  /-- There are no elements if there are no keys. -/
  | isEmpty (A) : Step A .isEmpty (.flag (A.keys = ∅)) A

namespace ScalarSet

/-! ### The relation -/

/-- A set of scalars stands for a finite set of keys: its table is sound, and holds for each key the
value stored for it. -/
structure Represents (s : ScalarSet k) (A : KeySet k) : Prop where
  /-- The table is sound. -/
  sound : s.table.Sound
  /-- The table holds the stored values. -/
  mem_contents_iff : ∀ v, (v, ()) ∈ s.table.contents ↔ A.Holds v

namespace Represents

variable {s s' : ScalarSet k} {A : KeySet k} {v : Scalar k}

theorem of_contents_eq_zero (hs : s.table.Sound) (h : s.table.contents = 0) :
    s.Represents .empty := by
  refine ⟨hs, fun v => ?_⟩
  rw [h]
  exact iff_of_false (Multiset.notMem_zero _) (KeySet.not_holds_empty v)

theorem of_contents_eq (h : s.Represents A) (hs' : s'.table.Sound)
    (hcontents : s'.table.contents = s.table.contents) : s'.Represents A := by
  refine ⟨hs', fun v => ?_⟩
  rw [hcontents]
  exact h.mem_contents_iff v

theorem empty : (ScalarSet.empty : ScalarSet k).Represents .empty :=
  of_contents_eq_zero Table.sound_empty (Table.contents_ofSlots 0)

theorem mem_keys_iff (h : s.Represents A) {x : UInt64} : x ∈ s.table.keys ↔ x ∈ A.keys := by
  rw [Table.keys, Multiset.mem_map]
  constructor
  · rintro ⟨⟨v, ⟨⟩⟩, hv, rfl⟩
    exact ((h.mem_contents_iff v).1 hv).1
  · intro hx
    exact ⟨(A.stored x, ()), (h.mem_contents_iff _).2 (KeySet.holds_stored hx), A.key_stored hx⟩

theorem size_eq_card (h : s.Represents A) : s.size = A.keys.card := by
  -- both are without repetition, so having the same elements is enough
  have hkeys : s.table.keys = A.keys.val :=
    (Multiset.Nodup.ext h.sound.nodup_keys A.keys.nodup).2 fun _ => h.mem_keys_iff
  rw [ScalarSet.size_eq_card h.sound, hkeys]
  rfl

theorem contains_eq (h : s.Represents A) (v : Scalar k) :
    s.contains v = decide (v.key ∈ A.keys) := by
  rw [Bool.eq_iff_iff, contains_eq_true_iff h.sound, h.mem_keys_iff, decide_eq_true_eq]

/-! ### Single calls -/

theorem add (h : s.Represents A) (v : Scalar k) :
    (s.add v).val.1 = decide (v.key ∉ A.keys) ∧ (s.add v).val.2.Represents (A.insert v) := by
  by_cases hmem : v.key ∈ A.keys
  · rw [add_of_mem h.sound (h.mem_keys_iff.2 hmem), KeySet.insert_of_mem hmem]
    exact ⟨by simp [hmem], h⟩
  · obtain ⟨s', hadd, hsound, hcontents⟩ :=
      exists_add_of_notMem h.sound (mt h.mem_keys_iff.1 hmem)
    rw [hadd]
    refine ⟨by simp [hmem], hsound, fun w => ?_⟩
    rw [hcontents, Multiset.mem_cons, h.mem_contents_iff, KeySet.holds_insert_iff hmem]
    simp

theorem extend (h : s.Represents A) (vs : List (Scalar k)) :
    (s.extend vs).val.Represents (A.insertAll vs) := by
  induction vs generalizing s A with
  | nil => exact h
  | cons v vs ih =>
    rw [val_extend_cons]
    exact ih (h.add v).2

theorem remove (h : s.Represents A) (v : Scalar k) :
    (s.remove v).1 = decide (v.key ∈ A.keys) ∧ (s.remove v).2.Represents (A.without [v]) := by
  by_cases hmem : v.key ∈ A.keys
  · obtain ⟨w, s', hremove, hkey, hsound, hcontents⟩ :=
      exists_remove_of_mem h.sound (h.mem_keys_iff.2 hmem)
    rw [hremove]
    refine ⟨by simp [hmem], hsound, fun u => ?_⟩
    rw [h.sound.mem_iff_of_contents_eq_cons hcontents, h.mem_contents_iff,
      KeySet.holds_without_iff, hkey]
    simp
  · rw [remove_of_notMem h.sound (mt h.mem_keys_iff.1 hmem)]
    -- to take away a key that is absent takes nothing away
    refine ⟨by simp [hmem], h.sound, fun u => ?_⟩
    rw [h.mem_contents_iff, KeySet.holds_without_iff]
    refine ⟨fun hu => ⟨hu, fun w hw hkey => ?_⟩, And.left⟩
    rw [List.mem_singleton.1 hw] at hkey
    exact hmem (hkey ▸ hu.1)

theorem retainM {σ : Type} (h : s.Represents A) (keep : Scalar k → StateM σ Bool) (start : σ) :
    ((s.retainM keep).run start).1.Represents
      (A.without ((rejectedM keep s.toList).run start).1) := by
  obtain ⟨s', hrun, hsound, hcontents⟩ := exists_retainM h.sound keep start
  rw [hrun]
  refine ⟨hsound, fun v => ?_⟩
  rw [h.sound.mem_iff_of_contents_eq_add hcontents, h.mem_contents_iff, KeySet.holds_without_iff]
  simp

theorem nodup_toList (h : s.Represents A) : s.toList.Nodup := by
  have hnodup := h.sound.nodup_keys
  rw [Table.keys, ← Function.comp_def Scalar.key Prod.fst, ← Multiset.map_map, ← coe_toList]
    at hnodup
  exact Multiset.coe_nodup.1 hnodup.of_map

/-- A call on a set of scalars is followed by a step of the finite set that it stands for. -/
theorem exists_step (h : s.Represents A) (c : SetCall k) :
    ∃ B, KeySet.Step A c (c.run s).1 B ∧ (c.run s).2.Represents B := by
  cases c with
  | new => exact ⟨_, .new A, empty⟩
  | withCapacity n =>
    rw [SetCall.run]
    rcases withCapacity_cases k n with ⟨s', hs', hsound, hcontents⟩ | ⟨hlimit, a, ha⟩
    · rw [hs']
      exact ⟨_, .withCapacity A n, of_contents_eq_zero hsound hcontents⟩
    · rw [ha]
      exact ⟨A, .withCapacity_refused A (.abort a) hlimit, h⟩
  | ofList vs => exact ⟨_, .ofList A vs, empty.extend vs⟩
  | add v =>
    obtain ⟨hflag, hnext⟩ := h.add v
    refine ⟨_, ?_, hnext⟩
    rw [SetCall.run, hflag]
    exact .add A v
  | remove v =>
    obtain ⟨hflag, hnext⟩ := h.remove v
    refine ⟨_, ?_, hnext⟩
    rw [SetCall.run, hflag]
    exact .remove A v
  | contains v =>
    refine ⟨A, ?_, h⟩
    rw [SetCall.run, h.contains_eq]
    exact .contains A v
  | clear => exact ⟨_, .clear A, of_contents_eq_zero h.sound.clear (Table.contents_clear _)⟩
  | retain keep start =>
    refine ⟨_, .retain A keep start s.toList h.nodup_toList fun v => ?_, h.retainM keep start⟩
    rw [mem_toList_iff, h.mem_contents_iff]
  | reserve n =>
    rw [SetCall.run]
    cases hr : s.reserve n with
    | error e => exact ⟨A, .reserve_refused A n e, h⟩
    | ok r =>
      obtain ⟨hsound, hcontents⟩ := sound_reserve h.sound hr
      exact ⟨A, .reserve A n, h.of_contents_eq hsound hcontents⟩
  | extend vs => exact ⟨_, .extend A vs, h.extend vs⟩
  | size =>
    refine ⟨A, ?_, h⟩
    rw [SetCall.run, h.size_eq_card]
    exact .size A
  | isEmpty =>
    refine ⟨A, ?_, h⟩
    have hflag : s.isEmpty = decide (A.keys = ∅) := by
      rw [Bool.eq_iff_iff, isEmpty, beq_iff_eq, h.size_eq_card, Finset.card_eq_zero,
        decide_eq_true_eq]
    rw [SetCall.run, hflag]
    exact .isEmpty A

end Represents

/-- The set of a list of values has as many elements as these have keys. -/
theorem size_ofList (vs : List (Scalar k)) :
    (ofList vs).val.size = (vs.map Scalar.key).toFinset.card := by
  rw [ofList, (Represents.empty.extend vs).size_eq_card, KeySet.keys_insertAll]
  exact congrArg Finset.card (Finset.empty_union _)

/-! ### Sequences of calls -/

/-- The responses to a sequence of calls on a new set, and the set after it. -/
def after (calls : List (SetCall k)) : List Response × ScalarSet k :=
  runCalls SetCall.run calls .empty

/-- **A set of scalars refines a finite set of keys.**  Whatever the calls on a new set are, the
responses are those of a finite set of keys, and the elements are the values stored for them.  To
add a value whose key is present changes nothing, not even the layout; and only room for a great
many elements is refused.  Two values have one key if they are the same or both of them are NaN. -/
theorem run_refines_keySet (calls : List (SetCall k)) :
    ∃ A : KeySet k, Run KeySet.Step .empty calls (after calls).1 A ∧
      (∀ v, v ∈ (after calls).2.toList ↔ A.Holds v) ∧
      (after calls).2.toList.Nodup ∧
      (after calls).2.size = A.keys.card ∧
      (∀ v, v.key ∈ A.keys → (after calls).2.add v = pure (false, (after calls).2)) ∧
      (∀ n, (after calls).2.size + n < Table.roomLimit →
        (after calls).2.capacity < 4 * Table.roomLimit → ∃ r, (after calls).2.reserve n = .ok r) ∧
      ∀ v w : Scalar k, v.key = w.key ↔ v = w ∨ v.isNaN = true ∧ w.isNaN = true := by
  obtain ⟨A, hrun, hA⟩ := exists_run SetCall.run KeySet.Step
    (fun s A c h => Represents.exists_step h c) calls Represents.empty
  refine ⟨A, hrun, fun v => ?_, hA.nodup_toList, hA.size_eq_card, fun v hv => ?_,
    fun n => exists_reserve_eq, fun v w => Scalar.key_eq_key_iff⟩
  · rw [mem_toList_iff]
    exact hA.mem_contents_iff v
  · exact add_of_mem hA.sound (hA.mem_keys_iff.2 hv)

end ScalarSet
end Slotted
