import Slotted.Proofs.Bytes.RoundTrip
import Slotted.Proofs.Churn.Capacity
import Slotted.Proofs.ScalarBag.Refinement
import Slotted.Proofs.ScalarSet.Refinement

/-!
# How many values are decoded

A decoder asks for room for all values at once, while additions make room as they go.  Room that is
asked for leaves some load to spare, so that for `2 ^ 58` values of eight bytes it takes twice the
slots that additions fill up to the limit, and more bytes than can be allocated.  Fewer values than
that are decoded from their encoding, and so are values of fewer bytes, of which there are not so
many.

## Main definitions

* `firstWords` — a given number of words.

## Main results

* `exists_ofBytes_toBytes` — every reachable container is decoded from its encoding, unless it has
  `2 ^ 58` values of eight bytes.
* `exists_ofBytes_toBytes_oversized` — one that has so many is not.
-/

namespace Slotted

variable {k : Kind}

/-- There are fewer keys of less than eight bytes than there always is room for. -/
theorem lt_roomLimit_of_le_pow_width {n : ℕ} (h : k.width = 8 → n < Table.roomLimit)
    (hle : n ≤ 256 ^ k.width) : n < Table.roomLimit := by
  have hkeys : k.width = 8 ∨ 256 ^ k.width < Table.roomLimit := by cases k <;> decide
  rcases hkeys with hwidth | hlt
  · exact h hwidth
  · exact hle.trans_lt hlt

/-- **Every reachable container is decoded from its encoding**, to one that compares equal: the
same values, the same counts, the same numbers of them.  Values of eight bytes have to be fewer
than `2 ^ 58`. -/
theorem exists_ofBytes_toBytes (k : Kind) :
    (∀ s : ScalarSet k, s.Reachable → (k.width = 8 → s.size < 2 ^ 58) →
      ∃ d : Traced (ScalarSet k), ofBytes (toBytes s) = .ok d ∧ d.val.eqv s = true ∧
        d.val.size = s.size ∧ ∀ v, d.val.contains v = s.contains v) ∧
    (∀ b : ScalarBag k, b.Reachable → (k.width = 8 → b.distinctSize < 2 ^ 58) →
      ∃ d : Traced (ScalarBag k), ofBytes (toBytes b) = .ok d ∧ d.val.eqv b = true ∧
        d.val.size = b.size ∧ d.val.distinctSize = b.distinctSize ∧
        ∀ v, d.val.occurrencesOf v = b.occurrencesOf v) ∧
    (∀ s : BoolSet, ∃ d : Traced BoolSet, ofBytes (toBytes s) = .ok d ∧ d.val = s) ∧
    ∀ b : BoolBag, b.Reachable →
      ∃ d : Traced BoolBag, ofBytes (toBytes b) = .ok d ∧ d.val = b := by
  refine ⟨fun s hs hlt => ?_, fun b hb hlt => ?_, BoolSet.exists_ofBytes_eq,
    fun b hb => BoolBag.exists_ofBytes_eq hb.size_le⟩
  · -- there are no more values than keys
    have hkeys := hs.sound.card_keys_le
    rw [← ScalarSet.size_eq_card hs.sound] at hkeys
    obtain ⟨e, he⟩ := ScalarSet.exists_tryWithCapacity_eq (lt_roomLimit_of_le_pow_width hlt hkeys)
    exact ScalarSet.exists_ofBytes_eq hs.sound he
  · have hkeys := hb.sound.table.card_keys_le
    rw [← ScalarBag.distinctSize_eq_card hb.sound] at hkeys
    obtain ⟨e, he⟩ := ScalarBag.exists_tryWithCapacity_eq (lt_roomLimit_of_le_pow_width hlt hkeys)
    exact ScalarBag.exists_ofBytes_eq hb.sound he

/-- For example a bag that holds a NaN with a sign and a payload of its own, twice. -/
theorem exists_ofBytes_toBytes_nan :
    let nan : Scalar .f64 := ⟨0xfff8000000000001, by decide⟩
    let b := ((ScalarBag.empty.addOccurrences nan 3).val.2.remove nan).2
    nan.isNaN = true ∧ b.Reachable ∧ b.distinctSize < 2 ^ 58 ∧
      ∃ d : Traced (ScalarBag .f64), ofBytes (toBytes b) = .ok d ∧ d.val.eqv b = true ∧
        d.val.size = b.size ∧ d.val.distinctSize = b.distinctSize ∧
        ∀ v, d.val.occurrencesOf v = b.occurrencesOf v := by
  intro nan b
  have hb : b.Reachable := .remove nan (.addOccurrences nan 3 .empty)
  have hlt : b.distinctSize < 2 ^ 58 := by
    simp only [b, nan]
    decide +kernel
  exact ⟨by decide, hb, hlt, (exists_ofBytes_toBytes .f64).2.1 b hb fun _ => hlt⟩

/-! ### At the limit -/

/-- The words from zero on, `n` of them. -/
def firstWords (n : ℕ) : List (Scalar .u64) :=
  (List.range n).map fun i => ⟨UInt64.ofNat i, (UInt64.ofNat i).toNat_lt⟩

theorem length_firstWords (n : ℕ) : (firstWords n).length = n := by
  rw [firstWords, List.length_map, List.length_range]

/-- As long as there are so many, they are different words. -/
theorem card_keys_firstWords {n : ℕ} (h : n ≤ 2 ^ 64) :
    ((firstWords n).map Scalar.key).toFinset.card = n := by
  have hkeys : (firstWords n).map Scalar.key = (List.range n).map UInt64.ofNat := by
    rw [firstWords, List.map_map]
    exact List.map_congr_left fun i _ => Scalar.key_eq_bits rfl _
  have hnodup : ((List.range n).map UInt64.ofNat).Nodup := by
    refine List.nodup_range.map_on fun i hi j hj hij => ?_
    have hi' : i < 2 ^ 64 := (List.mem_range.1 hi).trans_le h
    have hj' : j < 2 ^ 64 := (List.mem_range.1 hj).trans_le h
    have hnat := congrArg UInt64.toNat hij
    rwa [UInt64.toNat_ofNat_of_lt' hi', UInt64.toNat_ofNat_of_lt' hj'] at hnat
  rw [hkeys, List.toFinset_card_of_nodup hnodup, List.length_map, List.length_range]

/-- The set of a list of values is within memory, if they are not too many. -/
theorem ScalarSet.fitsMemory_ofList {vs : List (Scalar k)} (h : vs.length ≤ Table.roomLimit) :
    fitsMemory k 0 (ofList vs).val.capacity = true := by
  refine (passesAll_extendStages (s := .empty) Table.sound_empty vs).fitsMemory Table.sound_empty
    (asked_extendStages _ vs) (by decide) ?_ (by cases k <;> decide)
  show 0 + 0 + _ ≤ Table.roomLimit
  have hcount := List.countP_le_length (p := Stage.inserted) (l := extendStages .empty vs)
  rw [length_extendStages] at hcount
  omega

/-- So is the bag. -/
theorem ScalarBag.fitsMemory_ofList {vs : List (Scalar k)} (h : vs.length ≤ Table.roomLimit) :
    fitsMemory k 8 (ofList vs).val.2.capacity = true := by
  refine (passesAll_extendStages (b := .empty) sound_empty vs).fitsMemory Table.sound_empty
    (asked_extendStages _ vs) (by decide) ?_ (by cases k <;> decide)
  show 0 + 0 + _ ≤ Table.roomLimit
  have hcount := List.countP_le_length (p := Stage.inserted) (l := extendStages .empty vs)
  have hlength := length_extendStages_le .empty vs
  omega

/-- At the limit nothing is decoded any more.  Additions put `2 ^ 58` words into a set, and into a
bag, whose arrays are within the largest possible allocation; but to decode its encoding is cut
short by a request for more. -/
theorem exists_ofBytes_toBytes_oversized :
    let s := (ScalarSet.ofList (firstWords (2 ^ 58))).val
    let b := (ScalarBag.ofList (firstWords (2 ^ 58))).val.2
    (s.Reachable ∧ s.size = 2 ^ 58 ∧ fitsMemory .u64 0 s.capacity = true ∧
      (ofBytes (toBytes s) : Except Failure (Traced (ScalarSet .u64)))
        = .error (.abort .oversizedAllocation)) ∧
    b.Reachable ∧ b.distinctSize = 2 ^ 58 ∧ fitsMemory .u64 8 b.capacity = true ∧
      (ofBytes (toBytes b) : Except Failure (Traced (ScalarBag .u64)))
        = .error (.abort .oversizedAllocation) := by
  intro s b
  have hs : s.Reachable := ScalarSet.reachable_ofList _
  have hb : b.Reachable := ScalarBag.reachable_ofList _
  have hlength := length_firstWords (2 ^ 58)
  have hcard : ((firstWords (2 ^ 58)).map Scalar.key).toFinset.card = 2 ^ 58 :=
    card_keys_firstWords (Nat.pow_le_pow_right (by decide) (by decide))
  have hword : 2 ^ 58 ≤ maxWord := by decide
  have hsize : s.size = 2 ^ 58 := (ScalarSet.size_ofList _).trans hcard
  have hdistinct : b.distinctSize = 2 ^ 58 :=
    (ScalarBag.distinctSize_ofList (hlength.le.trans hword)).trans hcard
  refine ⟨⟨hs, hsize, ScalarSet.fitsMemory_ofList hlength.le,
      ScalarSet.ofBytes_toBytes_eq_error hs.sound (hsize.le.trans hword) ?_⟩,
    hb, hdistinct, ScalarBag.fitsMemory_ofList hlength.le,
    ScalarBag.ofBytes_toBytes_eq_error hb.sound (hdistinct.le.trans hword) ?_⟩
  · rw [hsize]
    rfl
  · rw [hdistinct]
    rfl

end Slotted
