import Mathlib.Algebra.BigOperators.Group.List.Basic
import Slotted.Proofs.Bytes.Reader
import Slotted.Proofs.Reachable

/-!
# Decoding an encoding

What a decoder needs of the container that it fills, and of the reader of values, is little: an
addition of a value that is absent makes it present and nothing else, and a value is read back with
the same key.  From that the decoder makes of an encoding a container with the same contents,
whether values are kept in slots or not.

## Main definitions

* `SetLaws`, `BagLaws` — what a decoder needs of a set, and of a bag.

## Main results

* `SetLaws.exists_parse_eq`, `BagLaws.exists_parse_eq` — decoding an encoding, in general.
* `setLaws_scalarSet`, `setLaws_boolSet`, `bagLaws_scalarBag`, `bagLaws_boolBag` — the containers
  that there are.
* `ScalarSet.exists_ofBytes_eq`, `ScalarBag.exists_ofBytes_eq`, `BoolSet.exists_ofBytes_eq`,
  `BoolBag.exists_ofBytes_eq` — each of them decoded from its encoding.
* `ScalarSet.ofBytes_toBytes_eq_error`, `ScalarBag.ofBytes_toBytes_eq_error` — what comes of an
  encoding if there is no room for the values.
-/

namespace Slotted

open Collection Counted Bag ByteReader

variable {C α κ : Type}

theorem length_flatMap_of_forall {write : α → List UInt8} {width : ℕ}
    (hwidth : ∀ a, (write a).length = width) (as : List α) :
    (as.flatMap write).length = as.length * width := by
  rw [List.length_flatMap, List.map_congr_left fun a _ => hwidth a, List.map_const',
    List.sum_replicate_nat]

/-! ### Sets -/

/-- The decoder reads the number of elements, and asks for a set to put that many in. -/
theorem run_decodeSet_encodeSet [Collection C α] {value : ByteReader α} {write : α → List UInt8}
    {tag width : ℕ} (hwidth : ∀ a, (write a).length = width) (allocate : ℕ → Except Failure C)
    {c : C} (hlength : (toList c).length = size c) (hle : size c ≤ maxWord) :
    (decodeSet tag width value allocate).run (encodeSet tag write c)
      = (MonadExcept.ofExcept (allocate (size c)) >>= fun e =>
          readElements value (size c) e : ByteReader (Traced C)).run
            ((toList c).flatMap write) := by
  -- there are as many bytes left as the number of elements asks for
  have hbytes : size c * width ≤ ((toList c).flatMap write).length := by
    rw [length_flatMap_of_forall hwidth, hlength]
  rw [decodeSet, encodeSet, ← List.singleton_append, run_bind_of_eq_ok (reads_tag tag _),
    run_bind_of_eq_ok (run_entryCount hle hbytes)]

/-- If there is none to be had, that is the answer. -/
theorem parse_encodeSet_eq_error [Collection C α] (value : ByteReader α) {write : α → List UInt8}
    {tag width : ℕ} (hwidth : ∀ a, (write a).length = width) (allocate : ℕ → Except Failure C)
    {c : C} (hlength : (toList c).length = size c) (hle : size c ≤ maxWord) {f : Failure}
    (halloc : allocate (size c) = .error f) :
    (decodeSet tag width value allocate).parse (encodeSet tag write c) = .error f := by
  refine parse_eq_error ?_
  rw [run_decodeSet_encodeSet hwidth allocate hlength hle, halloc]
  rfl

/-- What a decoder needs of a type of sets, whose elements are compared by a key. -/
structure SetLaws (C : Type) {α κ : Type} [Collection C α] (sound : C → Prop) (key : α → κ) :
    Prop where
  /-- The size is the number of elements. -/
  length_toList : ∀ {c}, sound c → (toList c).length = size c
  /-- No two elements have one key. -/
  nodup : ∀ {c}, sound c → ((toList c).map key).Nodup
  /-- What is contained has the key of an element. -/
  contains_iff : ∀ {c a}, sound c → (contains c a = true ↔ key a ∈ (toList c).map key)
  /-- To add what is absent makes it present, and nothing else. -/
  add : ∀ {c a}, sound c → key a ∉ (toList c).map key → ∃ c', (add c a).val = (.ok true, c') ∧
    sound c' ∧ size c' = size c + 1 ∧
      ∀ x, x ∈ (toList c').map key ↔ x = key a ∨ x ∈ (toList c).map key

namespace SetLaws

variable [Collection C α] {sound : C → Prop} {key : α → κ} {value : ByteReader α}
  {write : α → List UInt8}

/-- The elements of a list are read one after the other into a set that has none of them. -/
theorem exists_reads_readElements (laws : SetLaws C sound key)
    (hread : ∀ a, ∃ a', key a' = key a ∧ Reads value (write a) a') (as : List α) {c : C}
    (hc : sound c) (hnodup : (as.map key).Nodup)
    (hdisjoint : ∀ a ∈ as, key a ∉ (toList c).map key) :
    ∃ d, Reads (readElements value as.length c) (as.flatMap write) d ∧ sound d.val ∧
      size d.val = size c + as.length ∧
      ∀ x, x ∈ (toList d.val).map key ↔ x ∈ as.map key ∨ x ∈ (toList c).map key := by
  induction as generalizing c with
  | nil => exact ⟨pure c, reads_pure _, hc, rfl, fun x => by simp⟩
  | cons a as ih =>
    obtain ⟨a', hkey, ha'⟩ := hread a
    rw [List.map_cons, List.nodup_cons] at hnodup
    have habsent := hdisjoint a List.mem_cons_self
    rw [← hkey] at habsent
    obtain ⟨c', hadd, hc', hsize, hmem⟩ := laws.add hc habsent
    -- no element still to come has the key that was just added
    obtain ⟨d, hd, hsound, hsize', hmem'⟩ := ih hc' hnodup.2 fun b hb hbmem => by
      rcases (hmem _).1 hbmem with hba | hbc
      · rw [hkey] at hba
        exact hnodup.1 (hba ▸ List.mem_map_of_mem hb)
      · exact hdisjoint b (List.mem_cons_of_mem a hb) hbc
    refine ⟨⟨d.val, (Collection.add c a').rebuilds ++ d.rebuilds⟩, ?_, hsound, ?_, fun x => ?_⟩
    · rw [List.flatMap_cons, List.length_cons]
      refine ha'.bind (reads_after ?_)
      rw [hadd]
      exact hd
    · rw [hsize', hsize, List.length_cons]
      omega
    · rw [hmem', hmem, hkey, List.map_cons, List.mem_cons]
      tauto

/-- A set is decoded from its encoding, if an empty one can be had to put its elements in. -/
theorem exists_parse_eq (laws : SetLaws C sound key)
    (hread : ∀ a, ∃ a', key a' = key a ∧ Reads value (write a) a') {tag width : ℕ}
    (hwidth : ∀ a, (write a).length = width) (allocate : ℕ → Except Failure C) {c e : C}
    (hc : sound c) (hle : size c ≤ maxWord) (halloc : allocate (size c) = .ok e) (he : sound e)
    (hempty : toList e = []) :
    ∃ d, (decodeSet tag width value allocate).parse (encodeSet tag write c) = .ok d ∧
      sound d.val ∧ size d.val = size c ∧
      ∀ x, x ∈ (toList d.val).map key ↔ x ∈ (toList c).map key := by
  have hlength := laws.length_toList hc
  obtain ⟨d, hd, hsound, hsize, hmem⟩ := laws.exists_reads_readElements hread (toList c) he
    (laws.nodup hc) fun a _ => by rw [hempty]; exact List.not_mem_nil
  have hzero : size e = 0 := by rw [← laws.length_toList he, hempty, List.length_nil]
  rw [hlength] at hd hsize
  refine ⟨d, parse_eq_ok ?_, hsound, by rw [hsize, hzero, Nat.zero_add], fun x => ?_⟩
  · have helements := hd []
    rw [List.append_nil] at helements
    rw [run_decodeSet_encodeSet hwidth allocate hlength hle, halloc]
    exact helements
  · rw [hmem, hempty]
    simp

end SetLaws

/-! ### Bags -/

/-- The decoder reads the number of entries, and asks for a bag to put that many in. -/
theorem run_decodeBag_encodeBag [Bag C α] {value : ByteReader α} {write : α → List UInt8}
    {tag width : ℕ} (hwidth : ∀ a, (write a).length = width) (allocate : ℕ → Except Failure C)
    {c : C} (hle : (distinct c).length ≤ maxWord) :
    (decodeBag tag width value allocate).run (encodeBag tag write c)
      = (MonadExcept.ofExcept (allocate (distinct c).length) >>= fun e =>
          readEntries value (distinct c).length 0 e : ByteReader (Traced C)).run
            ((distinct c).flatMap fun (a, n) => write a ++ wordBytes n) := by
  have hbytes : (distinct c).length * (width + 8)
      ≤ ((distinct c).flatMap fun (a, n) => write a ++ wordBytes n).length := by
    refine (length_flatMap_of_forall (fun e => ?_) _).ge
    rw [List.length_append, hwidth, wordBytes, length_littleEndian]
  rw [decodeBag, encodeBag, ← List.singleton_append, run_bind_of_eq_ok (reads_tag _ _),
    run_bind_of_eq_ok (run_entryCount hle hbytes)]

/-- If there is none to be had, that is the answer. -/
theorem parse_encodeBag_eq_error [Bag C α] (value : ByteReader α) {write : α → List UInt8}
    {tag width : ℕ} (hwidth : ∀ a, (write a).length = width) (allocate : ℕ → Except Failure C)
    {c : C} (hle : (distinct c).length ≤ maxWord) {f : Failure}
    (halloc : allocate (distinct c).length = .error f) :
    (decodeBag tag width value allocate).parse (encodeBag tag write c) = .error f := by
  refine parse_eq_error ?_
  rw [run_decodeBag_encodeBag hwidth allocate hle, halloc]
  rfl

/-- What a decoder needs of a type of bags, whose elements are compared by a key. -/
structure BagLaws (C : Type) {α κ : Type} [Bag C α] [DecidableEq κ] (sound : C → Prop)
    (key : α → κ) : Prop where
  /-- No two distinct elements have one key. -/
  nodup : ∀ {c}, sound c → ((distinct c).map fun e => key e.1).Nodup
  /-- The count beside an element is not zero, and is the number of its occurrences. -/
  occurrencesOf_eq : ∀ {c e}, sound c → e ∈ distinct c → e.2 ≠ 0 ∧ occurrencesOf c e.1 = e.2
  /-- Other elements do not occur. -/
  occurrencesOf_eq_zero : ∀ {c a}, sound c → key a ∉ (distinct c).map (fun e => key e.1) →
    occurrencesOf c a = 0
  /-- Occurrences are counted by key. -/
  occurrencesOf_congr : ∀ {c a b}, sound c → key a = key b → occurrencesOf c a = occurrencesOf c b
  /-- The size is the sum of the counts. -/
  size_eq : ∀ {c}, sound c → size c = ((distinct c).map Prod.snd).sum
  /-- The size is a machine word. -/
  size_le : ∀ {c : C}, sound c → size c ≤ maxWord
  /-- To set the count of what does not occur makes it occur, and changes nothing else. -/
  setOccurrences : ∀ {c a n}, sound c → occurrencesOf c a = 0 → n ≠ 0 → size c + n ≤ maxWord →
    ∃ c', (setOccurrences c a n).val = (.ok 0, c') ∧ sound c' ∧ size c' = size c + n ∧
      ∀ b, occurrencesOf c' b = if key b = key a then n else occurrencesOf c b

namespace BagLaws

variable [Bag C α] [DecidableEq κ] {sound : C → Prop} {key : α → κ} {value : ByteReader α}
  {write : α → List UInt8}

/-- The entries of a list are read one after the other into a bag that has none of their values. -/
theorem exists_reads_readEntries (laws : BagLaws C sound key)
    (hread : ∀ a, ∃ a', key a' = key a ∧ Reads value (write a) a') (es : List (α × ℕ)) {c : C}
    (hc : sound c) (hnodup : (es.map fun e => key e.1).Nodup)
    (hpending : ∀ e ∈ es, e.2 ≠ 0 ∧ occurrencesOf c e.1 = 0)
    (hle : size c + (es.map Prod.snd).sum ≤ maxWord) :
    ∃ d, Reads (readEntries value es.length (size c) c)
        (es.flatMap fun (a, n) => write a ++ wordBytes n) d ∧ sound d.val ∧
      size d.val = size c + (es.map Prod.snd).sum ∧
      (∀ e ∈ es, occurrencesOf d.val e.1 = e.2) ∧
      ∀ b, key b ∉ es.map (fun e => key e.1) → occurrencesOf d.val b = occurrencesOf c b := by
  induction es generalizing c with
  | nil => exact ⟨pure c, reads_pure _, hc, rfl, fun e he => absurd he List.not_mem_nil,
      fun _ _ => rfl⟩
  | cons e es ih =>
    obtain ⟨a, n⟩ := e
    obtain ⟨a', hkey, ha'⟩ := hread a
    rw [List.map_cons, List.nodup_cons] at hnodup
    rw [List.map_cons, List.sum_cons] at hle
    obtain ⟨hn, hzero⟩ := hpending (a, n) List.mem_cons_self
    simp only at hn hzero hle hnodup
    -- what was just added is none of the values still to come
    have hne : ∀ e ∈ es, key e.1 ≠ key a' := by
      intro e he heq
      rw [hkey] at heq
      exact hnodup.1 (heq ▸ List.mem_map_of_mem (f := fun e : α × ℕ => key e.1) he)
    obtain ⟨c', hset, hc', hsize, hocc⟩ := laws.setOccurrences hc
      ((laws.occurrencesOf_congr hc hkey).trans hzero) hn (by omega)
    obtain ⟨d, hd, hsound, hsize', hread', hother⟩ := ih hc' hnodup.2
      (fun e he => ⟨(hpending e (List.mem_cons_of_mem _ he)).1, by
        rw [hocc, if_neg (hne e he)]
        exact (hpending e (List.mem_cons_of_mem _ he)).2⟩) (by omega)
    refine ⟨⟨d.val, (Bag.setOccurrences c a' n).rebuilds ++ d.rebuilds⟩, ?_, hsound, ?_, ?_, ?_⟩
    · rw [List.flatMap_cons, List.append_assoc, List.length_cons]
      refine ha'.bind ?_
      refine (reads_count hn (by omega)).bind ?_
      have hcount : addCount? (size c) n = some (size c + n) := if_pos (by omega)
      simp only [hcount]
      -- the value is not a duplicate, as its count before is zero
      refine reads_after ?_
      rw [hset]
      rw [hsize] at hd
      exact hd
    · rw [hsize', hsize, List.map_cons, List.sum_cons]
      exact Nat.add_assoc _ _ _
    · intro e he
      rcases List.mem_cons.1 he with rfl | he
      · rw [hother a hnodup.1, hocc, if_pos hkey.symm]
      · exact hread' e he
    · intro b hb
      rw [List.map_cons, List.mem_cons, not_or] at hb
      rw [hother b hb.2, hocc, if_neg (by rw [hkey]; exact hb.1)]

theorem size_eq_zero (laws : BagLaws C sound key) {e : C} (he : sound e) (hempty : distinct e = []) :
    size e = 0 := by
  rw [laws.size_eq he, hempty, List.map_nil, List.sum_nil]

/-- A bag is decoded from its encoding, if an empty one can be had to put its entries in. -/
theorem exists_parse_eq (laws : BagLaws C sound key)
    (hread : ∀ a, ∃ a', key a' = key a ∧ Reads value (write a) a') {tag width : ℕ}
    (hwidth : ∀ a, (write a).length = width) (allocate : ℕ → Except Failure C) {c e : C}
    (hc : sound c) (hle : (distinct c).length ≤ maxWord)
    (halloc : allocate (distinct c).length = .ok e) (he : sound e) (hempty : distinct e = []) :
    ∃ d, (decodeBag tag width value allocate).parse (encodeBag tag write c) = .ok d ∧
      sound d.val ∧ size d.val = size c ∧
      ∀ b, occurrencesOf d.val b = occurrencesOf c b := by
  have hnone : ∀ b, occurrencesOf e b = 0 := fun b =>
    laws.occurrencesOf_eq_zero he (by rw [hempty]; exact List.not_mem_nil)
  have hzero := laws.size_eq_zero he hempty
  obtain ⟨d, hd, hsound, hsize, hread', hother⟩ := laws.exists_reads_readEntries hread (distinct c)
    he (laws.nodup hc) (fun e' he' => ⟨(laws.occurrencesOf_eq hc he').1, hnone _⟩)
    (by rw [hzero, Nat.zero_add, ← laws.size_eq hc]; exact laws.size_le hc)
  rw [hzero, Nat.zero_add, ← laws.size_eq hc] at hsize
  refine ⟨d, parse_eq_ok ?_, hsound, hsize, fun b => ?_⟩
  · have hentries := hd []
    rw [List.append_nil, hzero] at hentries
    rw [run_decodeBag_encodeBag hwidth allocate hle, halloc]
    exact hentries
  · by_cases hb : key b ∈ (distinct c).map fun e => key e.1
    · obtain ⟨e', he', hkey⟩ := List.mem_map.1 hb
      rw [← laws.occurrencesOf_congr hsound hkey, ← laws.occurrencesOf_congr hc hkey,
        hread' e' he', (laws.occurrencesOf_eq hc he').2]
    · rw [hother b hb, hnone, laws.occurrencesOf_eq_zero hc hb]

end BagLaws

/-! ### The containers that there are -/

variable {k : Kind}

theorem setLaws_scalarSet (k : Kind) :
    SetLaws (ScalarSet k) (fun s => s.table.Sound) Scalar.key where
  length_toList := ScalarSet.length_toList
  nodup := by
    intro s hs
    have hkeys := hs.nodup_keys
    rw [← ScalarSet.coe_map_key_toList] at hkeys
    exact Multiset.coe_nodup.1 hkeys
  contains_iff := by
    intro s v hs
    exact (ScalarSet.contains_eq_true_iff hs).trans s.mem_map_key_toList_iff.symm
  add := by
    intro s v hs habsent
    obtain ⟨s', hadd, hsound, hcontents⟩ :=
      ScalarSet.exists_add_of_notMem hs (mt s.mem_map_key_toList_iff.2 habsent)
    have hkeys : s'.table.keys = v.key ::ₘ s.table.keys := by
      rw [Table.keys, hcontents, Multiset.map_cons]
      rfl
    refine ⟨s', ?_, hsound, ?_, fun x => ?_⟩
    · show (Except.ok (s.add v).val.1, (s.add v).val.2) = _
      rw [hadd]
    · show s'.size = s.size + 1
      rw [ScalarSet.size_eq_card hsound, hkeys, Multiset.card_cons, ScalarSet.size_eq_card hs]
    · refine s'.mem_map_key_toList_iff.trans ?_
      rw [hkeys, Multiset.mem_cons]
      exact or_congr_right s.mem_map_key_toList_iff.symm

theorem setLaws_boolSet : SetLaws BoolSet (fun _ => True) (id : Bool → Bool) where
  length_toList := by rintro (_ | _ | _ | _) - <;> rfl
  nodup := by rintro (_ | _ | _ | _) - <;> decide
  contains_iff := by rintro (_ | _ | _ | _) (_ | _) - <;> decide
  add := by
    intro s v _ habsent
    refine ⟨s.insert v, ?_, trivial, ?_, fun x => ?_⟩
    · revert habsent
      cases s <;> cases v <;> decide
    · revert habsent
      cases s <;> cases v <;> decide
    · cases s <;> cases v <;> cases x <;> decide

theorem bagLaws_scalarBag (k : Kind) : BagLaws (ScalarBag k) ScalarBag.Sound Scalar.key where
  nodup := by
    intro b hb
    have hkeys := hb.table.nodup_keys
    rw [← ScalarBag.coe_map_key_distinct] at hkeys
    exact Multiset.coe_nodup.1 hkeys
  occurrencesOf_eq := by
    intro b c hb hc
    have hmem : c ∈ b.table.contents := ScalarBag.mem_distinct_iff.1 hc
    exact ⟨(hb.pos c hmem).ne', ScalarBag.occurrencesOf_eq_of_mem hb hmem rfl⟩
  occurrencesOf_eq_zero := by
    intro b v hb hv
    exact ScalarBag.occurrencesOf_eq_zero hb (mt b.mem_map_key_distinct_iff.2 hv)
  occurrencesOf_congr := fun {b} _ _ _ hkey => b.occurrencesOf_congr hkey
  size_eq := by
    intro b hb
    have htotal := hb.total_eq
    rw [ScalarBag.countSum, ← ScalarBag.coe_distinct, Multiset.map_coe, Multiset.sum_coe] at htotal
    exact htotal
  size_le := fun hb => hb.total_le
  setOccurrences := by
    intro b v n hb hzero hn hle
    obtain ⟨w, m, R, hs⟩ := hb.exists_splits v
    have hm : m = 0 := (hs.occurrencesOf_eq hb).symm.trans hzero
    subst hm
    -- the value does not occur, so the rest is the whole total
    have htotal := hs.total_eq hb
    rw [Nat.zero_add] at htotal
    obtain ⟨b', w', hval, hsound, hs', -⟩ :=
      hs.exists_setOccurrences hb (hs.countSum_add_le hb hle)
    refine ⟨b', hval, hsound, ?_, fun u => ?_⟩
    · show b'.total = b.total + n
      rw [hs'.total_eq hsound, htotal, Nat.add_comm]
    · show b'.occurrencesOf u = if u.key = v.key then n else b.occurrencesOf u
      split
      · next hkey => rw [b'.occurrencesOf_congr hkey, hs'.occurrencesOf_eq hsound]
      · next hkey => exact hs.occurrencesOf_eq_of_ne hs' hb hsound hkey

theorem BoolBag.mem_distinct_iff {b : BoolBag} {e : Bool × ℕ} :
    e ∈ b.distinct ↔ e.2 ≠ 0 ∧ b.occurrencesOf e.1 = e.2 := by
  obtain ⟨v, n⟩ := e
  rw [distinct, List.mem_filter, bne_iff_ne, and_comm]
  refine and_congr_right fun _ => ?_
  cases v with
  | false => simpa [occurrencesOf] using eq_comm
  | true => simpa [occurrencesOf] using eq_comm

theorem BoolBag.setOccurrences_of_le {b : BoolBag} {n : ℕ} (v : Bool) (h : b.size + n ≤ maxWord) :
    b.setOccurrences v n = (.ok (b.occurrencesOf v), b.withCount v n) := by
  have hsize := b.size_eq v
  have hcount : addCount? (b.occurrencesOf !v) n = some ((b.occurrencesOf !v) + n) :=
    if_pos (by omega)
  rw [setOccurrences, hcount]

theorem bagLaws_boolBag : BagLaws BoolBag (fun b => b.size ≤ maxWord) (id : Bool → Bool) where
  nodup := by
    intro b _
    have hsub : (b.distinct.map fun e => e.1).Sublist [false, true] :=
      (List.filter_sublist (l := [(false, b.falses), (true, b.trues)])).map _
    exact hsub.nodup (by decide)
  occurrencesOf_eq := fun _ he => BoolBag.mem_distinct_iff.1 he
  occurrencesOf_eq_zero := by
    intro b v _ hv
    by_contra hne
    exact hv (List.mem_map.2 ⟨(v, b.occurrencesOf v), BoolBag.mem_distinct_iff.2 ⟨hne, rfl⟩, rfl⟩)
  occurrencesOf_congr := fun {b} _ _ _ hkey => congrArg b.occurrencesOf hkey
  size_eq := by
    intro b _
    show b.falses + b.trues = (b.distinct.map Prod.snd).sum
    rw [BoolBag.distinct]
    by_cases hf : b.falses = 0 <;> by_cases ht : b.trues = 0 <;> simp [hf, ht]
  size_le := fun hb => hb
  setOccurrences := by
    intro b v n hb hzero hn hle
    have hzero' : b.occurrencesOf v = 0 := hzero
    have hle' : b.size + n ≤ maxWord := hle
    have hsize := b.size_eq v
    refine ⟨b.withCount v n, ?_, ?_, ?_, fun u => ?_⟩
    · show b.setOccurrences v n = _
      rw [BoolBag.setOccurrences_of_le v hle', hzero']
    · show (b.withCount v n).size ≤ maxWord
      rw [BoolBag.size_withCount]
      omega
    · show (b.withCount v n).size = b.size + n
      rw [BoolBag.size_withCount]
      omega
    · show (b.withCount v n).occurrencesOf u = if u = v then n else b.occurrencesOf u
      cases u <;> cases v <;> rfl

/-! ### Round trips -/

theorem Scalar.length_toBytes (v : Scalar k) : v.toBytes.length = k.width :=
  length_littleEndian k.width v.key.toNat

/-- A set is decoded from its encoding, if one with room for as many values can be had. -/
theorem ScalarSet.exists_ofBytes_eq {s e : ScalarSet k} (hs : s.table.Sound)
    (he : tryWithCapacity s.size = .ok e) :
    ∃ d : Traced (ScalarSet k), ofBytes (toBytes s) = .ok d ∧ d.val.eqv s = true ∧
      d.val.size = s.size ∧ ∀ v, d.val.contains v = s.contains v := by
  obtain ⟨d, hd, hd', hsize, hmem⟩ := (setLaws_scalarSet k).exists_parse_eq
    exists_reads_scalar Scalar.length_toBytes tryWithCapacity hs
    (Table.le_maxWord_of_withCapacity (tryWithCapacity_eq_ok he)) he (sound_withCapacity he).1
    (toList_of_tryWithCapacity he)
  have hcontains : ∀ v, d.val.contains v = s.contains v := by
    intro v
    rw [Bool.eq_iff_iff, contains_eq_true_iff hd', contains_eq_true_iff hs,
      ← mem_map_key_toList_iff, ← mem_map_key_toList_iff]
    exact hmem v.key
  refine ⟨d, hd, ?_, hsize, hcontains⟩
  rw [eqv, Bool.and_eq_true, beq_iff_eq, List.all_eq_true]
  refine ⟨hsize, fun v hv => ?_⟩
  rw [← hcontains, contains_eq_true_iff hd', ← mem_map_key_toList_iff]
  exact List.mem_map_of_mem hv

/-- If there is none to be had, that is what comes of decoding it. -/
theorem ScalarSet.ofBytes_toBytes_eq_error {s : ScalarSet k} {f : Failure} (hs : s.table.Sound)
    (hle : s.size ≤ maxWord)
    (hf : (tryWithCapacity s.size : Except Failure (ScalarSet k)) = .error f) :
    (ofBytes (toBytes s) : Except Failure (Traced (ScalarSet k))) = .error f :=
  parse_encodeSet_eq_error _ Scalar.length_toBytes tryWithCapacity (length_toList hs) hle hf

theorem ScalarBag.mem_keys_iff_occurrencesOf_ne {b : ScalarBag k} (hb : b.Sound) {v : Scalar k} :
    v.key ∈ b.table.keys ↔ b.occurrencesOf v ≠ 0 := by
  obtain ⟨w, m, R, hs⟩ := hb.exists_splits v
  rw [hs.mem_keys_iff, hs.occurrencesOf_eq hb]

/-- Bags that agree on all counts have as many distinct values. -/
theorem ScalarBag.distinctSize_eq {b b' : ScalarBag k} (hb : b.Sound) (hb' : b'.Sound)
    (h : ∀ v, b'.occurrencesOf v = b.occurrencesOf v) : b'.distinctSize = b.distinctSize := by
  have hsub : ∀ {b b' : ScalarBag k}, b.Sound → b'.Sound →
      (∀ v, b'.occurrencesOf v = b.occurrencesOf v) → ∀ x ∈ b.table.keys, x ∈ b'.table.keys := by
    intro b b' hb hb' h x hx
    obtain ⟨c, hc, rfl⟩ := Multiset.mem_map.1 hx
    rw [mem_keys_iff_occurrencesOf_ne hb', h, ← mem_keys_iff_occurrencesOf_ne hb]
    exact hx
  have hkeys : b'.table.keys = b.table.keys :=
    (Multiset.Nodup.ext hb'.table.nodup_keys hb.table.nodup_keys).2 fun x =>
      ⟨hsub hb' hb (fun v => (h v).symm) x, hsub hb hb' h x⟩
  rw [distinctSize_eq_card hb', distinctSize_eq_card hb, hkeys]

/-- A bag is decoded from its encoding, if one with room for as many values can be had. -/
theorem ScalarBag.exists_ofBytes_eq {b e : ScalarBag k} (hb : b.Sound)
    (he : tryWithCapacity b.distinctSize = .ok e) :
    ∃ d : Traced (ScalarBag k), ofBytes (toBytes b) = .ok d ∧ d.val.eqv b = true ∧
      d.val.size = b.size ∧ d.val.distinctSize = b.distinctSize ∧
      ∀ v, d.val.occurrencesOf v = b.occurrencesOf v := by
  rw [← length_distinct hb] at he
  obtain ⟨d, hd, hd', hsize, hocc⟩ := (bagLaws_scalarBag k).exists_parse_eq
    exists_reads_scalar Scalar.length_toBytes tryWithCapacity hb
    (Table.le_maxWord_of_withCapacity (tryWithCapacity_eq_ok he).1) he (sound_withCapacity he).1
    (distinct_of_tryWithCapacity he)
  have hdistinct := distinctSize_eq hb hd' hocc
  refine ⟨d, hd, ?_, hsize, hdistinct, hocc⟩
  rw [eqv, Bool.and_eq_true, Bool.and_eq_true, beq_iff_eq, beq_iff_eq, List.all_eq_true]
  refine ⟨⟨hsize, hdistinct⟩, fun c hc => ?_⟩
  have hcount := ((bagLaws_scalarBag k).occurrencesOf_eq hd' hc).2
  exact beq_iff_eq.2 ((hocc c.1).symm.trans hcount)

/-- If there is none to be had, that is what comes of decoding it. -/
theorem ScalarBag.ofBytes_toBytes_eq_error {b : ScalarBag k} {f : Failure} (hb : b.Sound)
    (hle : b.distinctSize ≤ maxWord)
    (hf : (tryWithCapacity b.distinctSize : Except Failure (ScalarBag k)) = .error f) :
    (ofBytes (toBytes b) : Except Failure (Traced (ScalarBag k))) = .error f := by
  rw [← length_distinct hb] at hle hf
  exact parse_encodeBag_eq_error _ Scalar.length_toBytes tryWithCapacity hle hf

theorem BoolSet.eq_of_mem_toList_iff {s s' : BoolSet} (h : ∀ v, v ∈ s.toList ↔ v ∈ s'.toList) :
    s = s' := by
  have hfalse := h false
  have htrue := h true
  revert hfalse htrue
  cases s <;> cases s' <;> decide

theorem BoolSet.exists_ofBytes_eq (s : BoolSet) :
    ∃ d : Traced BoolSet, ofBytes (toBytes s) = .ok d ∧ d.val = s := by
  have hword : s.size ≤ maxWord := by cases s <;> decide
  obtain ⟨d, hd, -, -, hmem⟩ := setLaws_boolSet.exists_parse_eq (e := .empty)
    (fun v => ⟨v, rfl, reads_bool v⟩) (fun _ => rfl) (fun _ => .ok .empty) trivial hword rfl
    trivial rfl
  rw [List.map_id, List.map_id] at hmem
  exact ⟨d, hd, eq_of_mem_toList_iff hmem⟩

theorem BoolBag.exists_ofBytes_eq {b : BoolBag} (hb : b.size ≤ maxWord) :
    ∃ d : Traced BoolBag, ofBytes (toBytes b) = .ok d ∧ d.val = b := by
  have hlength : b.distinct.length ≤ maxWord :=
    (List.length_filter_le _ [(false, b.falses), (true, b.trues)]).trans
      (show 2 ≤ maxWord by decide)
  -- two counts make the whole bag
  obtain ⟨⟨⟨falses, trues⟩, rebuilds⟩, hd, -, -, hocc⟩ :=
    bagLaws_boolBag.exists_parse_eq (e := .empty) (fun v => ⟨v, rfl, reads_bool v⟩)
      (fun _ => rfl) (fun _ => .ok .empty) hb hlength rfl (Nat.zero_le _) rfl
  have hfalse : falses = b.falses := hocc false
  have htrue : trues = b.trues := hocc true
  subst hfalse htrue
  exact ⟨_, hd, rfl⟩

end Slotted
