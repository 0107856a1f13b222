import Slotted.Proofs.Lockstep.Counts

/-!
# Truth values and the bytes zero and one

The containers of truth values share nothing with the tables that the containers of scalars are
made of: the set is one of four states, the bag two counts.  Yet whatever is asked of them, they
answer just as the containers of bytes do that are asked the same of the bytes zero and one.  Sets
are in step as long as the table holds the bytes of the elements, bags as long as the counts agree;
the limit on the sum of the counts is the same, although each tests it in its own way.

## Main definitions

* `byteOf` — the byte that stands for a truth value.
* `BoolSet.Mirrors`, `BoolBag.Mirrors` — a container of bytes stands for one of truth values.
* `BoolBag.toTally` — the tally of the bytes that a bag of truth values stands for.

## Main results

* `BoolSet.matching_mirrors`, `BoolBag.inStep_mirrors` — mirrored containers are in step.
* `BoolSet.Mirrors.hashCode_eq`, `BoolBag.Mirrors.hashCode_eq` — and have one hash code.
* `truth_values_as_bytes` — all of it, for what sequences of calls lead to.
-/

namespace Slotted

/-- The byte that stands for a truth value. -/
def byteOf (v : Bool) : Scalar .u8 := ⟨if v then 1 else 0, by cases v <;> decide⟩

theorem key_byteOf (v : Bool) : (byteOf v).key = if v then 1 else 0 := by
  cases v <;> decide

theorem key_byteOf_injective : Function.Injective fun v => (byteOf v).key := by
  intro v w
  cases v <;> cases w <;> simp [key_byteOf]

theorem byteOf_injective : Function.Injective byteOf :=
  fun _ _ h => key_byteOf_injective (congrArg Scalar.key h)

/-- A truth value hashes as its byte does. -/
theorem hash_byteOf (v : Bool) : (byteOf v).hash = hashBool v := by
  rw [Scalar.hash, key_byteOf, hashBool]

/-! ### Sets -/

namespace BoolSet

variable {s : BoolSet} {t : ScalarSet .u8} {v : Bool}

theorem mem_toList_iff : v ∈ s.toList ↔ s.contains v = true := by
  cases s <;> cases v <;> decide

theorem perm_toList_insert (h : s.contains v = false) :
    (s.insert v).toList.Perm (v :: s.toList) := by
  revert h
  cases s <;> cases v <;> decide

theorem insert_of_contains (h : s.contains v = true) : s.insert v = s := by
  revert h
  cases s <;> cases v <;> decide

theorem perm_toList_erase (h : s.contains v = true) :
    s.toList.Perm (v :: (s.erase v).toList) := by
  revert h
  cases s <;> cases v <;> decide

theorem erase_of_contains_eq_false (h : s.contains v = false) : s.erase v = s := by
  revert h
  cases s <;> cases v <;> decide

theorem add_eq (s : BoolSet) (v : Bool) : s.add v = (!s.contains v, s.insert v) := by
  cases s <;> cases v <;> decide

theorem remove_eq (s : BoolSet) (v : Bool) : s.remove v = (s.contains v, s.erase v) := by
  cases s <;> cases v <;> decide

/-- The keys of the bytes of the elements. -/
def keys (s : BoolSet) : List UInt64 := s.toList.map fun v => (byteOf v).key

/-- A set of bytes stands for a set of truth values: it has the bytes of its elements. -/
structure Mirrors (s : BoolSet) (t : ScalarSet .u8) : Prop where
  /-- The table is sound. -/
  sound : t.table.Sound
  /-- It holds the bytes of the elements, and no others. -/
  keys_eq : t.table.keys = s.keys

theorem perm_keys_insert (h : s.contains v = false) :
    (s.insert v).keys.Perm ((byteOf v).key :: s.keys) := (perm_toList_insert h).map _

theorem perm_keys_erase (h : s.contains v = true) :
    s.keys.Perm ((byteOf v).key :: (s.erase v).keys) := (perm_toList_erase h).map _

theorem key_mem_keys_iff : (byteOf v).key ∈ s.keys ↔ s.contains v = true := by
  rw [keys, List.mem_map, ← mem_toList_iff]
  constructor
  · rintro ⟨w, hw, hkey⟩
    rwa [← key_byteOf_injective hkey]
  · intro hv
    exact ⟨v, hv, rfl⟩

theorem Mirrors.mem_keys_iff (h : s.Mirrors t) :
    (byteOf v).key ∈ t.table.keys ↔ s.contains v = true := by
  rw [h.keys_eq, Multiset.mem_coe, key_mem_keys_iff]

theorem Mirrors.contains_eq (h : s.Mirrors t) (v : Bool) : s.contains v = t.contains (byteOf v) := by
  rw [Bool.eq_iff_iff, ScalarSet.contains_eq_true_iff h.sound, h.mem_keys_iff]

theorem Mirrors.add (h : s.Mirrors t) (v : Bool) :
    Agree Mirrors (s.add v) (t.add (byteOf v)).val := by
  rw [add_eq]
  cases hv : s.contains v with
  | true =>
    rw [ScalarSet.add_of_mem h.sound (h.mem_keys_iff.2 hv), insert_of_contains hv]
    exact ⟨rfl, h⟩
  | false =>
    have habsent : (byteOf v).key ∉ t.table.keys := by simp [h.mem_keys_iff, hv]
    obtain ⟨t', hadd, hsound, hcontents⟩ := ScalarSet.exists_add_of_notMem h.sound habsent
    rw [hadd]
    refine ⟨rfl, hsound, ?_⟩
    have hkeys : t'.table.keys = (byteOf v).key ::ₘ t.table.keys := by
      rw [Table.keys, hcontents, Multiset.map_cons]
      rfl
    rw [hkeys, h.keys_eq, Multiset.cons_coe, Multiset.coe_eq_coe]
    exact (perm_keys_insert hv).symm

theorem Mirrors.remove (h : s.Mirrors t) (v : Bool) :
    Agree Mirrors (s.remove v) (t.remove (byteOf v)) := by
  rw [remove_eq]
  cases hv : s.contains v with
  | true =>
    obtain ⟨w, t', hremove, hkey, hsound, hcontents⟩ :=
      ScalarSet.exists_remove_of_mem h.sound (h.mem_keys_iff.2 hv)
    rw [hremove]
    refine ⟨rfl, hsound, ?_⟩
    have hkeys : t.table.keys = (byteOf v).key ::ₘ t'.table.keys := by
      rw [Table.keys, hcontents, Multiset.map_cons, hkey]
      rfl
    rw [h.keys_eq, Multiset.coe_eq_coe.2 (perm_keys_erase hv), ← Multiset.cons_coe] at hkeys
    exact ((Multiset.cons_inj_right _).1 hkeys).symm
  | false =>
    have habsent : (byteOf v).key ∉ t.table.keys := by simp [h.mem_keys_iff, hv]
    rw [ScalarSet.remove_of_notMem h.sound habsent, erase_of_contains_eq_false hv]
    exact ⟨rfl, h⟩

theorem mirrors_of_contents_eq_zero (ht : t.table.Sound) (h : t.table.contents = 0) :
    empty.Mirrors t := by
  refine ⟨ht, ?_⟩
  rw [Table.keys, h]
  rfl

theorem matching_mirrors : Matching byteOf Mirrors where
  size := by
    intro s t h
    show s.size = t.size
    rw [ScalarSet.size_eq_card h.sound, h.keys_eq]
    cases s <;> rfl
  contains := Mirrors.contains_eq
  add := by
    intro s t h v
    exact (h.add v).map Except.ok
  remove := Mirrors.remove
  clear := by
    intro s t h
    exact mirrors_of_contents_eq_zero h.sound.clear (Table.contents_clear _)

/-- The hash code of a set is the sum of the hashes of the keys. -/
theorem Mirrors.hashCode_eq (h : s.Mirrors t) : s.hashCode = t.hashCode := by
  have hperm : s.keys.Perm (t.toList.map Scalar.key) := by
    rw [← Multiset.coe_eq_coe, ScalarSet.coe_map_key_toList, h.keys_eq]
  have hsum : s.hashCode = s.keys.foldl (fun h x => h + mix x) 0 := by
    rw [keys, List.foldl_map, hashCode]
    simp only [← hash_byteOf, Scalar.hash]
  rw [hsum, ScalarSet.hashCode_eq_foldl]
  exact hperm.foldl_eq' (fun x _ y _ z => add_add_comm_right z (mix x) (mix y)) 0

end BoolSet

/-! ### Bags -/

namespace BoolBag

variable {b : BoolBag} {c : ScalarBag .u8}

/-- A bag of bytes stands for a bag of truth values: it has the same counts. -/
def Mirrors (b : BoolBag) (c : ScalarBag .u8) : Prop :=
  SameCountsBy (fun b : BoolBag => b.size ≤ maxWord) ScalarBag.Sound Scalar.key byteOf b c

theorem inStep_mirrors :
    InStep (K := TuningCall Bool) TuningCall.run (fun call => (call.map byteOf).run) Mirrors :=
  tuningLaws_boolBag.inStep (tuningLaws_scalarBag .u8) fun _ _ => key_byteOf_injective.eq_iff

/-- The tally of the bytes that the truth values stand for. -/
def toTally (b : BoolBag) : Tally (Scalar .u8) :=
  ⟨b.distinct.map fun e => (byteOf e.1, e.2), b.size⟩

theorem sound_toTally (hb : b.size ≤ maxWord) : b.toTally.Sound where
  proper := by
    constructor
    · have hnodup := (bagLaws_boolBag.nodup hb).map byteOf_injective
      rw [List.map_map] at hnodup
      rw [toTally, List.map_map]
      exact hnodup
    · intro e he
      obtain ⟨e', he', rfl⟩ := List.mem_map.1 he
      exact (mem_distinct_iff.1 he').1
  total_eq := by
    have hsize : b.size = (b.distinct.map Prod.snd).sum := bagLaws_boolBag.size_eq hb
    rw [toTally, List.map_map, hsize]
    rfl
  total_le := hb

/-- The tally counts the byte of a truth value as often as the bag counts the truth value. -/
theorem occurrencesOf_toTally (hb : b.size ≤ maxWord) (v : Bool) :
    b.toTally.occurrencesOf (byteOf v) = b.occurrencesOf v := by
  by_cases hzero : b.occurrencesOf v = 0
  · rw [hzero]
    refine Tally.countIn_eq_zero fun hmem => ?_
    simp only [toTally, List.map_map, List.mem_map, Function.comp] at hmem
    obtain ⟨e, he, hev⟩ := hmem
    obtain ⟨hne, hcount⟩ := mem_distinct_iff.1 he
    rw [byteOf_injective hev, hzero] at hcount
    exact hne hcount.symm
  · have hentry : (byteOf v, b.occurrencesOf v) ∈ b.toTally.entries :=
      List.mem_map.2 ⟨(v, b.occurrencesOf v), mem_distinct_iff.2 ⟨hzero, rfl⟩, rfl⟩
    exact ((sound_toTally hb).proper.mem_iff.1 hentry).2

/-- Other bytes are counted by neither the tally nor a bag of bytes. -/
theorem Mirrors.occurrencesOf_toTally (h : b.Mirrors c) (v : Scalar .u8) :
    c.occurrencesOf v = b.toTally.occurrencesOf v := by
  by_cases hv : ∃ w, byteOf w = v
  · obtain ⟨w, rfl⟩ := hv
    rw [BoolBag.occurrencesOf_toTally h.left]
    exact (h.occurrencesOf_eq w).symm
  · have hforeign : c.occurrencesOf v = 0 :=
      h.foreign v fun w hkey => hv ⟨w, Scalar.key_injective rfl hkey⟩
    rw [hforeign]
    refine (Tally.countIn_eq_zero fun hmem => hv ?_).symm
    simp only [toTally, List.map_map, List.mem_map, Function.comp] at hmem
    obtain ⟨e, -, he⟩ := hmem
    exact ⟨e.1, he⟩

/-- So the comparison with a tally tells that the bags have the same contents. -/
theorem Mirrors.eqvTally (h : b.Mirrors c) : c.eqvTally b.toTally = true :=
  (ScalarBag.eqvTally_iff_occurrencesOf rfl h.right (sound_toTally h.left)).2
    h.occurrencesOf_toTally

theorem Mirrors.hashCode_eq (h : b.Mirrors c) : b.hashCode = c.hashCode := by
  have htally : b.toTally.hashCode = b.hashCode := by
    rw [Tally.hashCode, toTally, List.foldl_map, hashCode]
    simp only [hash_byteOf]
  rw [← htally]
  exact (ScalarBag.hashCode_eq_of_eqvTally rfl h.right (sound_toTally h.left) h.eqvTally).symm

theorem Mirrors.distinctSize_eq (h : b.Mirrors c) : b.distinctSize = c.distinctSize := by
  have hsize := h.eqvTally
  simp only [ScalarBag.eqvTally, Bool.and_eq_true, beq_iff_eq] at hsize
  rw [hsize.1.2, Tally.distinctSize, toTally, List.length_map]
  rfl

end BoolBag

/-! ### Sequences of calls -/

/-- **Truth values are as good as the bytes zero and one.**  Whatever the calls on a new set of truth
values are, it gives the responses that a new set of bytes gives to the same calls on bytes, and the
two have one hash code.  The same holds of the bags, whose numbers of distinct values agree, too.
They refuse the same calls, and a single call that is refused changes neither of them; so the two
counts of a bag of truth values are together always a machine word. -/
theorem truth_values_as_bytes :
    (∀ calls : List (CollectionCall Bool),
      let s := runCalls CollectionCall.run calls BoolSet.empty
      let t := runCalls CollectionCall.run (calls.map (.map byteOf)) (ScalarSet.empty : ScalarSet .u8)
      s.1 = t.1 ∧ s.2.hashCode = t.2.hashCode) ∧
    ∀ calls : List (TuningCall Bool),
      let b := runCalls TuningCall.run calls BoolBag.empty
      let c := runCalls TuningCall.run (calls.map (.map byteOf)) (ScalarBag.empty : ScalarBag .u8)
      b.1 = c.1 ∧ b.2.hashCode = c.2.hashCode ∧ b.2.distinctSize = c.2.distinctSize ∧
      b.2.falses + b.2.trues ≤ maxWord ∧
      ∀ call : TuningCall Bool, (call.run b.2).1 = ((call.map byteOf).run c.2).1 ∧
        ∀ why, call.Single → (call.run b.2).1 = .refused why →
          (call.run b.2).2 = b.2 ∧ ((call.map byteOf).run c.2).2 = c.2 := by
  constructor
  · intro calls s t
    have hempty : BoolSet.empty.Mirrors (ScalarSet.empty : ScalarSet .u8) :=
      BoolSet.mirrors_of_contents_eq_zero Table.sound_empty (Table.contents_ofSlots 0)
    obtain ⟨hanswers, hlast⟩ := BoolSet.matching_mirrors.inStep.runCalls_map hempty calls
    exact ⟨hanswers, hlast.hashCode_eq⟩
  · intro calls b c
    have hempty : BoolBag.empty.Mirrors (ScalarBag.empty : ScalarBag .u8) :=
      .empty bagGrowth_boolBag (bagGrowth_scalarBag .u8)
    obtain ⟨hanswers, hlast⟩ := BoolBag.inStep_mirrors.runCalls_map hempty calls
    refine ⟨hanswers, hlast.hashCode_eq, hlast.distinctSize_eq, hlast.left, ?_⟩
    intro call
    have hanswer := (BoolBag.inStep_mirrors.agree hlast call).1
    refine ⟨hanswer, ?_⟩
    intro why hsingle hrefused
    exact ⟨tuningLaws_boolBag.eq_of_refused hlast.left hsingle hrefused,
      (tuningLaws_scalarBag .u8).eq_of_refused hlast.right (hsingle.map byteOf)
        (hanswer.symm.trans hrefused)⟩

/-- For example two bags that are as full as can be, neither of which takes another occurrence. -/
theorem truth_values_as_bytes_full :
    let b := runCalls TuningCall.run [.counted (.addOccurrences true maxWord)] BoolBag.empty
    let c := runCalls TuningCall.run [.counted (.addOccurrences (byteOf true) maxWord)]
      (ScalarBag.empty : ScalarBag .u8)
    let call : TuningCall Bool := .setOccurrences false 1
    b.2 = ⟨0, maxWord⟩ ∧ b.1 = c.1 ∧ b.2.hashCode = c.2.hashCode ∧ call.Single ∧
      (call.run b.2).1 = .refused (.abort .countOverflow) ∧
      ((call.map byteOf).run c.2).1 = .refused (.abort .countOverflow) ∧
      (call.run b.2).2 = b.2 ∧ ((call.map byteOf).run c.2).2 = c.2 := by
  intro b c call
  obtain ⟨-, hbags⟩ := truth_values_as_bytes
  obtain ⟨hanswers, hcode, -, -, hcall⟩ := hbags [.counted (.addOccurrences true maxWord)]
  obtain ⟨hanswer, hrefused⟩ := hcall call
  have hfull : b.2 = ⟨0, maxWord⟩ := by decide
  have hover : (call.run b.2).1 = .refused (.abort .countOverflow) := by
    rw [hfull]
    rfl
  obtain ⟨hleft, hright⟩ := hrefused _ trivial hover
  exact ⟨hfull, hanswers, hcode, trivial, hover, hanswer.symm.trans hover, hleft, hright⟩

end Slotted
