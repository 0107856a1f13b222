import Mathlib.Data.List.Nodup
import Slotted.Proofs.Bytes.Grammar
import Slotted.Proofs.Json.Document
import Slotted.Proofs.Tally

/-!
# When containers are equal

To compare two containers, the numbers of their values are compared and then the values of the first
are looked up in the second.  The second is never gone through, and yet the answer depends on
neither the order nor the layout of the two: as no value stands in two slots and no count is zero,
values that are as many and all found are the same values.

What is compared are keys with counts.  The keys with the counts of a container are a list without
repetition, and both comparison and hash see it up to order only.

## Main definitions

* `keyed` — the entries of a container with their keys in place of the values.
* `keyedHash` — a hash of such a list, in which its order does not matter.

## Main results

* `ScalarSet.eqv_iff_perm`, `ScalarBag.eqv_iff_perm` — equal containers hold the same keys.
* `ScalarSet.eqv_iff_contains`, `ScalarBag.eqv_iff_occurrencesOf` — they answer alike.
* `ScalarSet.hashCode_eq_of_eqv`, `ScalarBag.hashCode_eq_of_eqv` — and have one hash code.
* `ScalarSet.eqvList_iff`, `ScalarBag.eqvTally_iff_occurrencesOf` — comparison with other containers.
* `eqv_iff_same_contents` — all of it, for the containers that operations lead to.
-/

namespace Slotted

variable {k : Kind}

/-- The terms of a sum of words may be added in any order. -/
theorem add_add_comm_right (z x y : UInt64) : z + x + y = z + y + x := by
  rw [UInt64.add_assoc, UInt64.add_comm x y, ← UInt64.add_assoc]

/-! ### Sets -/

namespace ScalarSet

variable {s s' : ScalarSet k}

theorem nodup_map_key_toList (hs : s.table.Sound) : (s.toList.map Scalar.key).Nodup :=
  (setLaws_scalarSet k).nodup hs

theorem contains_iff_mem (hs : s.table.Sound) (v : Scalar k) :
    s.contains v = true ↔ v.key ∈ s.toList.map Scalar.key :=
  (contains_eq_true_iff hs).trans s.mem_map_key_toList_iff.symm

/-- Equal sets have the same keys. -/
theorem eqv_iff_perm (hs : s.table.Sound) (hs' : s'.table.Sound) :
    s.eqv s' = true ↔ (s.toList.map Scalar.key).Perm (s'.toList.map Scalar.key) := by
  rw [eqv, Bool.and_eq_true, beq_iff_eq, List.all_eq_true]
  constructor
  · rintro ⟨hsize, hall⟩
    have hsub : s.toList.map Scalar.key ⊆ s'.toList.map Scalar.key := by
      intro x hx
      obtain ⟨v, hv, rfl⟩ := List.mem_map.1 hx
      exact (contains_iff_mem hs' v).1 (hall v hv)
    refine (List.subperm_of_subset (nodup_map_key_toList hs) hsub).perm_of_length_le ?_
    rw [List.length_map, List.length_map, length_toList hs, length_toList hs', hsize]
  · intro hperm
    constructor
    · have hlength := hperm.length_eq
      rwa [List.length_map, List.length_map, length_toList hs, length_toList hs'] at hlength
    · intro v hv
      exact (contains_iff_mem hs' v).2 (hperm.mem_iff.1 (List.mem_map_of_mem hv))

/-- Equal sets contain the same values. -/
theorem eqv_iff_contains (hs : s.table.Sound) (hs' : s'.table.Sound) :
    s.eqv s' = true ↔ ∀ v, s.contains v = s'.contains v := by
  rw [eqv_iff_perm hs hs',
    List.perm_ext_iff_of_nodup (nodup_map_key_toList hs) (nodup_map_key_toList hs')]
  constructor
  · intro hmem v
    rw [Bool.eq_iff_iff, contains_iff_mem hs, contains_iff_mem hs']
    exact hmem v.key
  · intro hcontains x
    constructor
    · intro hx
      obtain ⟨v, hv, rfl⟩ := List.mem_map.1 hx
      rw [← contains_iff_mem hs', ← hcontains, contains_iff_mem hs]
      exact hx
    · intro hx
      obtain ⟨v, hv, rfl⟩ := List.mem_map.1 hx
      rw [← contains_iff_mem hs, hcontains, contains_iff_mem hs']
      exact hx

/-- The hash code is a sum over the keys. -/
theorem hashCode_eq_foldl (s : ScalarSet k) :
    s.hashCode = (s.toList.map Scalar.key).foldl (fun h x => h + mix x) 0 := by
  rw [List.foldl_map]
  rfl

theorem hashCode_eq_of_eqv (hs : s.table.Sound) (hs' : s'.table.Sound) (h : s.eqv s' = true) :
    s.hashCode = s'.hashCode := by
  rw [hashCode_eq_foldl, hashCode_eq_foldl]
  refine ((eqv_iff_perm hs hs').1 h).foldl_eq' (fun x _ y _ z => ?_) 0
  exact add_add_comm_right z (mix x) (mix y)

theorem nodup_toList (hs : s.table.Sound) : s.toList.Nodup := (nodup_map_key_toList hs).of_map _

/-- Outside the float kinds a value is contained if it is itself an element. -/
theorem contains_iff_mem_toList (hk : k.isFloat = false) (hs : s.table.Sound) (v : Scalar k) :
    s.contains v = true ↔ v ∈ s.toList := by
  rw [contains_iff_mem hs, List.mem_map]
  constructor
  · rintro ⟨w, hw, hkey⟩
    rwa [← Scalar.key_injective hk hkey]
  · intro hv
    exact ⟨v, hv, rfl⟩

end ScalarSet

/-- A list is left with one of each of its elements. -/
theorem nodup_eraseDups {α : Type} [DecidableEq α] : ∀ as : List α, as.eraseDups.Nodup
  | [] => by
    rw [List.eraseDups_nil]
    exact List.nodup_nil
  | a :: as => by
    rw [List.eraseDups_cons, List.nodup_cons]
    refine ⟨fun hmem => ?_, nodup_eraseDups _⟩
    rw [List.mem_eraseDups, List.mem_filter] at hmem
    simpa using hmem.2
termination_by as => as.length
decreasing_by
  rw [List.length_cons]
  exact Nat.lt_succ_of_le (List.length_filter_le _ as)

/-- A set has the elements of a list just if it contains what the list names. -/
theorem ScalarSet.eqvList_iff {s : ScalarSet k} (hk : k.isFloat = false) (hs : s.table.Sound)
    (vs : List (Scalar k)) : s.eqvList vs = true ↔ ∀ v, s.contains v = true ↔ v ∈ vs := by
  rw [eqvList, Bool.and_eq_true, beq_iff_eq, List.all_eq_true]
  constructor
  · rintro ⟨hsize, hall⟩ v
    have hsub : s.toList ⊆ vs.eraseDups := by
      intro w hw
      rw [List.mem_eraseDups]
      exact List.contains_iff_mem.1 (hall w hw)
    have hperm : s.toList.Perm vs.eraseDups := by
      refine (List.subperm_of_subset (nodup_toList hs) hsub).perm_of_length_le ?_
      rw [length_toList hs, hsize]
    rw [contains_iff_mem_toList hk hs, hperm.mem_iff, List.mem_eraseDups]
  · intro hmem
    have hperm : s.toList.Perm vs.eraseDups := by
      refine (List.perm_ext_iff_of_nodup (nodup_toList hs) (nodup_eraseDups vs)).2 fun v => ?_
      rw [← contains_iff_mem_toList hk hs, hmem, List.mem_eraseDups]
    refine ⟨?_, fun v hv => ?_⟩
    · rw [← length_toList hs, hperm.length_eq]
    · rw [List.contains_iff_mem, ← List.mem_eraseDups, ← hperm.mem_iff]
      exact hv

/-! ### Entries with keys -/

/-- Entries with their keys in place of the values. -/
def keyed (es : List (Scalar k × ℕ)) : List (UInt64 × ℕ) := es.map fun e => (e.1.key, e.2)

/-- A hash of keys with counts: a sum over them. -/
def keyedHash (ks : List (UInt64 × ℕ)) : UInt64 :=
  ks.foldl (fun h e => h + (mix e.1 ^^^ UInt64.ofNat e.2)) 0

theorem keyedHash_eq_of_perm {ks ks' : List (UInt64 × ℕ)} (h : ks.Perm ks') :
    keyedHash ks = keyedHash ks' :=
  h.foldl_eq' (fun _ _ _ _ z => add_add_comm_right z _ _) 0

theorem map_fst_keyed (es : List (Scalar k × ℕ)) :
    (keyed es).map Prod.fst = es.map fun e => e.1.key := by
  rw [keyed, List.map_map]
  rfl

theorem map_snd_keyed (es : List (Scalar k × ℕ)) :
    (keyed es).map Prod.snd = es.map Prod.snd := by
  rw [keyed, List.map_map]
  rfl

/-- Keys that no value has are not counted, so counts agree if those of all values do. -/
theorem countIn_keyed_eq_iff {es es' : List (Scalar k × ℕ)} :
    (∀ x, Tally.countIn x (keyed es) = Tally.countIn x (keyed es')) ↔
      ∀ v : Scalar k, Tally.countIn v.key (keyed es) = Tally.countIn v.key (keyed es') := by
  refine ⟨fun h v => h v.key, fun h x => ?_⟩
  by_cases hx : ∃ v : Scalar k, v.key = x
  · obtain ⟨v, rfl⟩ := hx
    exact h v
  · have hnone : ∀ es : List (Scalar k × ℕ), Tally.countIn x (keyed es) = 0 := by
      intro es
      refine Tally.countIn_eq_zero fun hmem => hx ?_
      rw [map_fst_keyed, List.mem_map] at hmem
      obtain ⟨e, -, he⟩ := hmem
      exact ⟨e.1, he⟩
    rw [hnone, hnone]

/-! ### Bags -/

namespace ScalarBag

variable {b b' : ScalarBag k}

theorem Sound.proper_keyed (hb : b.Sound) : Tally.Proper (keyed b.distinct) := by
  constructor
  · rw [map_fst_keyed]
    exact (bagLaws_scalarBag k).nodup hb
  · intro e he
    obtain ⟨c, hc, rfl⟩ := List.mem_map.1 he
    exact (hb.pos c (mem_distinct_iff.1 hc)).ne'

theorem Sound.total_eq_sum (hb : b.Sound) : b.total = ((keyed b.distinct).map Prod.snd).sum := by
  rw [map_snd_keyed]
  exact (bagLaws_scalarBag k).size_eq hb

theorem Sound.distinctSize_eq_length (hb : b.Sound) : b.distinctSize = (keyed b.distinct).length := by
  rw [keyed, List.length_map, ← Multiset.coe_card, coe_distinct]
  exact hb.table.live_eq_card

theorem Sound.occurrencesOf_eq_countIn (hb : b.Sound) (v : Scalar k) :
    b.occurrencesOf v = Tally.countIn v.key (keyed b.distinct) := by
  by_cases hv : v.key ∈ b.table.keys
  · obtain ⟨c, hc, hkey⟩ := Multiset.mem_map.1 hv
    have hentry : (v.key, c.2) ∈ keyed b.distinct := by
      rw [← hkey]
      exact List.mem_map_of_mem (f := fun e : Scalar k × ℕ => (e.1.key, e.2)) (mem_distinct_iff.2 hc)
    rw [occurrencesOf_eq_of_mem hb hc hkey, (hb.proper_keyed.mem_iff.1 hentry).2]
  · rw [occurrencesOf_eq_zero hb hv, Tally.countIn_eq_zero]
    rwa [map_fst_keyed, mem_map_key_distinct_iff]

/-- Entries that are as many as those of the bag, and in which all of those are found, are the same
up to order; the total is then the same, too. -/
theorem Sound.scan_iff_perm (hb : b.Sound) {es : List (Scalar k × ℕ)}
    (hes : Tally.Proper (keyed es)) {count : Scalar k → ℕ}
    (hcount : ∀ v, count v = Tally.countIn v.key (keyed es)) :
    (b.total = ((keyed es).map Prod.snd).sum ∧ b.distinctSize = (keyed es).length ∧
        ∀ c ∈ b.distinct, count c.1 = c.2) ↔ (keyed b.distinct).Perm (keyed es) := by
  rw [hb.total_eq_sum, hb.distinctSize_eq_length]
  constructor
  · rintro ⟨-, hlength, hall⟩
    refine hb.proper_keyed.perm_of_countIn hes hlength fun e he => ?_
    obtain ⟨c, hc, rfl⟩ := List.mem_map.1 he
    rw [← hcount]
    exact hall c hc
  · intro hperm
    refine ⟨(hperm.map Prod.snd).sum_eq, hperm.length_eq, fun c hc => ?_⟩
    have hentry : (c.1.key, c.2) ∈ keyed es := hperm.mem_iff.1 (List.mem_map_of_mem
      (f := fun e : Scalar k × ℕ => (e.1.key, e.2)) hc)
    rw [hcount, (hes.mem_iff.1 hentry).2]

/-- They are the same up to order just if all values are counted alike. -/
theorem Sound.perm_iff_occurrencesOf (hb : b.Sound) {es : List (Scalar k × ℕ)}
    (hes : Tally.Proper (keyed es)) {count : Scalar k → ℕ}
    (hcount : ∀ v, count v = Tally.countIn v.key (keyed es)) :
    (keyed b.distinct).Perm (keyed es) ↔ ∀ v, b.occurrencesOf v = count v := by
  rw [hb.proper_keyed.perm_iff hes, countIn_keyed_eq_iff]
  refine forall_congr' fun v => ?_
  rw [hb.occurrencesOf_eq_countIn, hcount]

/-- Equal bags have the same keys with the same counts. -/
theorem eqv_iff_perm (hb : b.Sound) (hb' : b'.Sound) :
    b.eqv b' = true ↔ (keyed b.distinct).Perm (keyed b'.distinct) := by
  rw [← hb.scan_iff_perm hb'.proper_keyed hb'.occurrencesOf_eq_countIn, ← hb'.total_eq_sum,
    ← hb'.distinctSize_eq_length, eqv]
  simp only [Bool.and_eq_true, beq_iff_eq, List.all_eq_true, and_assoc]

/-- Equal bags count all values alike. -/
theorem eqv_iff_occurrencesOf (hb : b.Sound) (hb' : b'.Sound) :
    b.eqv b' = true ↔ ∀ v, b.occurrencesOf v = b'.occurrencesOf v := by
  rw [eqv_iff_perm hb hb', hb.perm_iff_occurrencesOf hb'.proper_keyed hb'.occurrencesOf_eq_countIn]

theorem hashCode_eq_keyedHash (b : ScalarBag k) : b.hashCode = keyedHash (keyed b.distinct) := by
  rw [keyedHash, keyed, List.foldl_map]
  rfl

theorem hashCode_eq_of_eqv (hb : b.Sound) (hb' : b'.Sound) (h : b.eqv b' = true) :
    b.hashCode = b'.hashCode := by
  rw [hashCode_eq_keyedHash, hashCode_eq_keyedHash]
  exact keyedHash_eq_of_perm ((eqv_iff_perm hb hb').1 h)

end ScalarBag

/-! ### Tallies of scalars -/

section Tally

variable {t : Tally (Scalar k)} {b : ScalarBag k}

theorem Tally.Proper.keyed {es : List (Scalar k × ℕ)} (hk : k.isFloat = false)
    (h : Tally.Proper es) : Tally.Proper (keyed es) := by
  constructor
  · have hkeys : es.map (fun e => e.1.key) = (es.map Prod.fst).map Scalar.key := by
      rw [List.map_map]
      rfl
    rw [map_fst_keyed, hkeys]
    exact h.nodup.map (Scalar.key_injective hk)
  · intro e he
    obtain ⟨c, hc, rfl⟩ := List.mem_map.1 he
    exact h.count_ne c hc

theorem Tally.countIn_eq_countIn_keyed (hk : k.isFloat = false) (v : Scalar k)
    (es : List (Scalar k × ℕ)) : Tally.countIn v es = Tally.countIn v.key (keyed es) := by
  induction es with
  | nil => rfl
  | cons e es ih =>
    have hkey : e.1.key = v.key ↔ e.1 = v := (Scalar.key_injective hk).eq_iff
    show (if e.1 = v then e.2 else Tally.countIn v es)
      = if e.1.key = v.key then e.2 else Tally.countIn v.key (Slotted.keyed es)
    simp only [hkey, ih]

/-- A bag is equal to a tally with the same keys and the same counts. -/
theorem ScalarBag.eqvTally_iff_perm (hk : k.isFloat = false) (hb : b.Sound) (ht : t.Sound) :
    b.eqvTally t = true ↔ (keyed b.distinct).Perm (keyed t.entries) := by
  have hlength : t.distinctSize = (keyed t.entries).length := (List.length_map _).symm
  have htotal : t.total = ((keyed t.entries).map Prod.snd).sum := by
    rw [map_snd_keyed, ht.total_eq]
  rw [← hb.scan_iff_perm (ht.proper.keyed hk)
    (fun v => Tally.countIn_eq_countIn_keyed hk v t.entries), ← htotal, ← hlength, eqvTally]
  simp only [Bool.and_eq_true, beq_iff_eq, List.all_eq_true, and_assoc, Tally.occurrencesOf]

/-- A bag is equal to a tally that counts all values alike. -/
theorem ScalarBag.eqvTally_iff_occurrencesOf (hk : k.isFloat = false) (hb : b.Sound)
    (ht : t.Sound) : b.eqvTally t = true ↔ ∀ v, b.occurrencesOf v = t.occurrencesOf v := by
  rw [eqvTally_iff_perm hk hb ht, hb.perm_iff_occurrencesOf (ht.proper.keyed hk)
    fun v => Tally.countIn_eq_countIn_keyed hk v t.entries]
  rfl

theorem ScalarBag.hashCode_eq_of_eqvTally (hk : k.isFloat = false) (hb : b.Sound) (ht : t.Sound)
    (h : b.eqvTally t = true) : b.hashCode = t.hashCode := by
  have htally : t.hashCode = keyedHash (keyed t.entries) := by
    rw [keyedHash, Slotted.keyed, List.foldl_map]
    rfl
  rw [hashCode_eq_keyedHash, htally]
  exact keyedHash_eq_of_perm ((eqvTally_iff_perm hk hb ht).1 h)

end Tally

/-! ### Containers that operations lead to -/

/-- A comparison that tells whether two things look alike is an equivalence. -/
theorem equivalence_of_iff {C V W : Type} {P : C → Prop} {same : C → C → Bool} {look : C → V → W}
    (h : ∀ {c c'}, P c → P c' → (same c c' = true ↔ ∀ v, look c v = look c' v)) :
    Equivalence fun c c' : {c // P c} => same c.1 c'.1 = true where
  refl c := (h c.2 c.2).2 fun _ => rfl
  symm := by
    intro c c' hsame
    exact (h c'.2 c.2).2 fun v => ((h c.2 c'.2).1 hsame v).symm
  trans := by
    intro c c' c'' hsame hsame'
    exact (h c.2 c''.2).2 fun v => ((h c.2 c'.2).1 hsame v).trans ((h c'.2 c''.2).1 hsame' v)

/-- **Equality and hash of containers do not depend on how they came about.**  Two sets that
operations lead to are equal just if they contain the same values, and two bags if they count all
values alike; so equality is an equivalence, and equal containers have one hash code, which is the
one word that a hasher is given.  The containers that bytes and documents are decoded to are among
those that operations lead to.  But for floats, the same holds of a set and the list of the elements
of another sort of set, and of a bag and a tally, which then have one hash code, too. -/
theorem eqv_iff_same_contents (k : Kind) :
    (∀ s s' : ScalarSet k, s.Reachable → s'.Reachable →
      (s.eqv s' = true ↔ ∀ v, s.contains v = s'.contains v) ∧
      (s.eqv s' = true → s.hashCode = s'.hashCode ∧ ∀ {σ : Type} (write : σ → UInt64 → σ) (h : σ),
        Hashed.feed write h s = write h s.hashCode ∧
          Hashed.feed write h s' = Hashed.feed write h s)) ∧
    (∀ b b' : ScalarBag k, b.Reachable → b'.Reachable →
      (b.eqv b' = true ↔ ∀ v, b.occurrencesOf v = b'.occurrencesOf v) ∧
      (b.eqv b' = true → b.hashCode = b'.hashCode ∧ ∀ {σ : Type} (write : σ → UInt64 → σ) (h : σ),
        Hashed.feed write h b = write h b.hashCode ∧
          Hashed.feed write h b' = Hashed.feed write h b)) ∧
    (Equivalence fun s s' : {s : ScalarSet k // s.Reachable} => s.1.eqv s'.1 = true) ∧
    (Equivalence fun b b' : {b : ScalarBag k // b.Reachable} => b.1.eqv b'.1 = true) ∧
    (∀ bytes, (∀ d : Traced (ScalarSet k), ofBytes bytes = .ok d → d.val.Reachable) ∧
      ∀ d : Traced (ScalarBag k), ofBytes bytes = .ok d → d.val.Reachable) ∧
    (∀ text, (∀ s : ScalarSet k, (ofDocument text).val = .ok s → s.Reachable) ∧
      ∀ b : ScalarBag k, (ofDocument text).val = .ok b → b.Reachable) ∧
    (k.isFloat = false →
      (∀ s : ScalarSet k, s.Reachable → ∀ vs : List (Scalar k),
        s.eqvList vs = true ↔ ∀ v, s.contains v = true ↔ v ∈ vs) ∧
      ∀ b : ScalarBag k, b.Reachable → ∀ t : Tally (Scalar k), t.Reachable →
        (b.eqvTally t = true ↔ ∀ v, b.occurrencesOf v = t.occurrencesOf v) ∧
        (b.eqvTally t = true → b.hashCode = t.hashCode)) := by
  refine ⟨fun s s' hs hs' => ⟨ScalarSet.eqv_iff_contains hs.sound hs'.sound, fun heqv => ?_⟩,
    fun b b' hb hb' => ⟨ScalarBag.eqv_iff_occurrencesOf hb.sound hb'.sound, fun heqv => ?_⟩,
    equivalence_of_iff fun hs hs' => ScalarSet.eqv_iff_contains hs.sound hs'.sound,
    equivalence_of_iff fun hb hb' => ScalarBag.eqv_iff_occurrencesOf hb.sound hb'.sound,
    fun bytes => ⟨fun _ => ScalarSet.reachable_of_ofBytes, fun _ => ScalarBag.reachable_of_ofBytes⟩,
    fun text => ⟨fun _ => ScalarSet.reachable_of_ofDocument,
      fun _ => ScalarBag.reachable_of_ofDocument⟩,
    fun hk => ⟨fun s hs => ScalarSet.eqvList_iff hk hs.sound, fun b hb t ht => ?_⟩⟩
  · have hcode := ScalarSet.hashCode_eq_of_eqv hs.sound hs'.sound heqv
    exact ⟨hcode, fun write h => ⟨rfl, congrArg (write h) hcode.symm⟩⟩
  · have hcode := ScalarBag.hashCode_eq_of_eqv hb.sound hb'.sound heqv
    exact ⟨hcode, fun write h => ⟨rfl, congrArg (write h) hcode.symm⟩⟩
  · exact ⟨ScalarBag.eqvTally_iff_occurrencesOf hk hb.sound ht.sound,
      ScalarBag.hashCode_eq_of_eqvTally hk hb.sound ht.sound⟩

/-- For example two sets, of which the second has lost a third element and keeps a tombstone, and a
bag and a tally that were filled in different orders. -/
theorem eqv_iff_same_contents_tombstone :
    let one : Scalar .u8 := ⟨1, by decide⟩
    let two : Scalar .u8 := ⟨2, by decide⟩
    let three : Scalar .u8 := ⟨3, by decide⟩
    let s := (ScalarSet.empty.extend [one, two]).val
    let s' := ((ScalarSet.empty.extend [three, two, one]).val.remove three).2
    let b := (ScalarBag.empty.addOccurrences one 2).val.2
    let t := (Tally.empty.extend [one, one]).2
    s.Reachable ∧ s'.Reachable ∧ s'.table.tombstones = 1 ∧
      (s.eqv s' = true ∧ ∀ v, s.contains v = s'.contains v) ∧ s.hashCode = s'.hashCode ∧
      Kind.u8.isFloat = false ∧ b.Reachable ∧ t.Reachable ∧
      (b.eqvTally t = true ∧ ∀ v, b.occurrencesOf v = t.occurrencesOf v) ∧
      b.hashCode = t.hashCode := by
  intro one two three s s' b t
  obtain ⟨hsets, -, -, -, -, -, htallies⟩ := eqv_iff_same_contents .u8
  have hs : s.Reachable := .extend _ .empty
  have hs' : s'.Reachable := .remove _ (.extend _ .empty)
  have hb : b.Reachable := .addOccurrences _ _ .empty
  have ht : t.Reachable := .extend _ .empty
  obtain ⟨heqv, htomb, htally⟩ :
      s.eqv s' = true ∧ s'.table.tombstones = 1 ∧ b.eqvTally t = true := by
    simp only [s, s', b, t, one, two, three]
    decide +kernel
  obtain ⟨hcontains, hcode⟩ := hsets s s' hs hs'
  obtain ⟨hcount, hcode'⟩ := (htallies rfl).2 b hb t ht
  exact ⟨hs, hs', htomb, ⟨heqv, hcontains.1 heqv⟩, (hcode heqv).1, rfl, hb, ht,
    ⟨htally, hcount.1 htally⟩, hcode' htally⟩

end Slotted
