import Slotted.Proofs.Churn.History

/-!
# Room that was asked for in advance

A table was granted room for a number of values when so many more slots may come into use within its
load limit.  A value that is put in takes at most one slot from this room, whether it reuses a
tombstone or not; a value that goes leaves a tombstone, so that the room is as it was.  So as long
as no more values are put in than room was asked for, `entry` always finds room and rebuilds
nothing.

## Main definitions

* `Table.Undisturbed` — what it means that nothing is rebuilt.
* `Table.Granted` — the tables of containers that were granted room.

## Main results

* `Table.Passes.room`, `Table.Passes.keeps` — what one change leaves of the room, and that it
  rebuilds nothing.
* `Table.PassesAll.undisturbed` — the same for a list of changes.
* `Table.Granted.room` — room that is granted is there.
* `room_honoured` — room is kept until it is used up, and asking for it loses nothing.
-/

namespace Slotted

variable {k : Kind} {P : Type}

namespace Table

variable {t t' : Table k P} {x : Stage k P} {l : List (Stage k P)} {m n : ℕ}

/-! ### Changes within the room -/

theorem overLimit_anti (hmn : m ≤ n) (h : t.overLimit n = false) : t.overLimit m = false := by
  rw [not_overLimit_iff] at h ⊢
  exact (Nat.mul_le_mul_right _ (Nat.add_le_add_left hmn _)).trans h

/-- A table with room for a value has slots. -/
theorem capacity_ne_zero_of_room (h : t.overLimit (m + 1) = false) : t.capacity ≠ 0 := by
  intro hcap
  rw [not_overLimit_iff, hcap, Nat.zero_mul, Nat.le_zero_eq, Nat.mul_eq_zero] at h
  have hden := k.load_num_lt_den
  omega

/-- A change takes from the room of a table what it puts in, and no more. -/
theorem Passes.room (h : t.Passes x) (ht : t.Sound)
    (hroom : t.overLimit (m + x.inserted.toNat) = false) : x.table.overLimit m = false := by
  rw [not_overLimit_iff] at hroom ⊢
  have hused := h.used_le ht
  calc (x.table.live + x.table.tombstones + m) * k.load.den
      ≤ (t.live + t.tombstones + (m + x.inserted.toNat)) * k.load.den :=
        Nat.mul_le_mul_right _ (by omega)
    _ ≤ t.capacity * k.load.num := hroom
    _ ≤ x.table.capacity * k.load.num := Nat.mul_le_mul_right _ (h.capacity_le ht)

/-- A change for which there is room rebuilds nothing, unless it asks for more. -/
theorem Passes.keeps (h : t.Passes x) (ht : t.Sound) (hasked : x.asked = false)
    (hroom : t.overLimit x.inserted.toNat = false) : x.rebuilds = [] ∧ t.Keeps x.table := by
  cases h with
  | inserted hmakes hready p =>
    cases hmakes with
    | ready _ => exact ⟨rfl, keeps_occupy hready.free _ p⟩
    | first hcap => exact absurd hcap (capacity_ne_zero_of_room (m := 0) hroom)
    | grown _ hfull => exact absurd (hroom.symm.trans hfull) (by simp)
  | eased h _ => exact ⟨rfl, h.keeps ht⟩
  | reserved _ => exact absurd hasked (by simp)

/-- Nothing is rebuilt on the way through a list of stages: the number of slots is the same
throughout, and a value has its slot as long as it is found. -/
structure Undisturbed (t : Table k P) (l : List (Stage k P)) : Prop where
  /-- There are no rebuilds. -/
  rebuilds : ∀ x ∈ l, x.rebuilds = []
  /-- The number of slots. -/
  capacity : ∀ x ∈ l, x.table.capacity = t.capacity
  /-- The slots of the values that are found before and after a change. -/
  slots : (t :: l.map Stage.table).IsChain Keeps

/-- With room for all values that are put in, nothing is rebuilt. -/
theorem PassesAll.undisturbed (h : t.PassesAll l t') (ht : t.Sound)
    (hasked : ∀ x ∈ l, x.asked = false) (hroom : t.overLimit (l.countP Stage.inserted) = false) :
    t.Undisturbed l := by
  induction h with
  | nil t => exact ⟨by simp, by simp, .singleton t⟩
  | @cons t t' x l hx _ ih =>
    obtain ⟨hfirst, hothers⟩ := List.forall_mem_cons.1 hasked
    rw [Stage.countP_inserted_cons] at hroom
    obtain ⟨hrebuilds, hkeeps⟩ := hx.keeps ht hfirst (overLimit_anti (Nat.le_add_left _ _) hroom)
    have hl := ih (hx.sound ht) hothers (hx.room ht hroom)
    refine ⟨List.forall_mem_cons.2 ⟨hrebuilds, hl.rebuilds⟩,
      List.forall_mem_cons.2 ⟨hkeeps.capacity, fun y hy => ?_⟩, .cons_cons hkeeps hl.slots⟩
    rw [hl.capacity y hy, hkeeps.capacity]

/-! ### Granting room -/

/-- The slots for a number of values have room for them. -/
theorem room_of_slotsFor? {s : ℕ} (h : slotsFor? n k.load = some s) :
    n * k.load.den ≤ s * k.load.num := by
  by_cases hn : n = 0
  · rw [hn, Nat.zero_mul]
    exact Nat.zero_le _
  · exact (lt_mul_of_slotsFor? k.load_num_pos hn h).le

theorem room_withCapacity [Payload P] (h : withCapacity n = .ok t) : t.overLimit n = false := by
  obtain ⟨s, hs, rfl⟩ := withCapacity_eq_ok h
  rw [not_overLimit_iff, live_ofSlots, tombstones_ofSlots, capacity_ofSlots, Nat.zero_add]
  exact room_of_slotsFor? hs

theorem room_reserve [Payload P] {r : Traced (Table k P)} (ht : t.Sound)
    (h : t.reserve n = .ok r) : r.val.overLimit n = false := by
  cases hfull : t.overLimit n with
  | false =>
    rw [reserve_of_room hfull] at h
    rw [← Except.ok.inj h]
    exact hfull
  | true =>
    obtain ⟨s, hs, rfl⟩ := exists_rebuild_of_reserve hfull h
    obtain ⟨hsound, hcontents, hlen, htomb⟩ := ht.resized_max hs
    show (t.resized _).overLimit n = false
    rw [not_overLimit_iff, ht.live_congr hsound hcontents, htomb, hlen]
    exact (room_of_slotsFor? hs).trans (Nat.mul_le_mul_right _ (le_max_left _ _))

/-- The table of a container that was granted room for `n` values: of a new one, or of a reachable
one for so many more. -/
inductive Granted (n : ℕ) : {P : Type} → Table k P → Prop where
  /-- A new set, which was tried for. -/
  | tryNewSet {s : ScalarSet k} (h : ScalarSet.tryWithCapacity n = .ok s) : Granted n s.table
  /-- A new set. -/
  | newSet {s : ScalarSet k} (h : ScalarSet.withCapacity n = .ok s) : Granted n s.table
  /-- A reachable set in which room was reserved. -/
  | set {s : ScalarSet k} {r : Traced (ScalarSet k)} (hs : s.Reachable) (h : s.reserve n = .ok r) :
      Granted n r.val.table
  /-- A new bag, which was tried for. -/
  | tryNewBag {b : ScalarBag k} (h : ScalarBag.tryWithCapacity n = .ok b) : Granted n b.table
  /-- A new bag. -/
  | newBag {b : ScalarBag k} (h : ScalarBag.withCapacity n = .ok b) : Granted n b.table
  /-- A reachable bag in which room was reserved. -/
  | bag {b : ScalarBag k} {r : Traced (ScalarBag k)} (hb : b.Reachable) (h : b.reserve n = .ok r) :
      Granted n r.val.table

/-- Room that is granted is there. -/
theorem Granted.room (h : t.Granted n) : t.overLimit n = false := by
  cases h with
  | tryNewSet h => exact room_withCapacity (ScalarSet.tryWithCapacity_eq_ok h)
  | newSet h =>
    have htry := ScalarSet.tryWithCapacity_of_withCapacity h
    exact room_withCapacity (ScalarSet.tryWithCapacity_eq_ok htry)
  | set hs h => exact room_reserve hs.sound (ScalarSet.table_reserve h)
  | tryNewBag h => exact room_withCapacity (ScalarBag.tryWithCapacity_eq_ok h).1
  | newBag h =>
    have htry := ScalarBag.tryWithCapacity_of_withCapacity h
    exact room_withCapacity (ScalarBag.tryWithCapacity_eq_ok htry).1
  | bag hb h => exact room_reserve hb.sound.table (ScalarBag.table_reserve h)

/-- Where saturating arithmetic finds a table over its load limit, it is. -/
theorem InUse.overLimit_eq [Payload P] (h : t.InUse)
    (hfits : fitsMemory k (Payload.width P) t.capacity = true) (n : ℕ) :
    k.load.exceededByWord (t.live + t.tombstones) n t.capacity = t.overLimit n :=
  Load.exceededByWord_eq k.load_den_pos (h.sound.length.mul_num_lt hfits)

end Table

/-! ### Room is honoured -/

/-- **Room that was granted is kept until it is used up.**  As long as no more values are put in than
room was granted for, and no more room is asked for, nothing is rebuilt, whatever else is done to the
set or bag: the number of slots stays, and so does the slot of a value that does not go.  Asking for
room takes nothing from what a container holds, and no slots either.  And a machine, whose arithmetic
saturates, finds the same tables over the limit, if they fit into its memory. -/
theorem room_honoured (k : Kind) (n : ℕ) :
    (∀ {P : Type} {t : Table k P} {l : List (Stage k P)}, t.Granted n → t.Undergoes l →
      (∀ x ∈ l, x.asked = false) → l.countP Stage.inserted ≤ n → t.Undisturbed l) ∧
    (∀ {s : ScalarSet k} {r : Traced (ScalarSet k)}, s.Reachable → s.reserve n = .ok r →
      r.val.toList.Perm s.toList ∧ s.capacity ≤ r.val.capacity) ∧
    (∀ {b : ScalarBag k} {r : Traced (ScalarBag k)}, b.Reachable → b.reserve n = .ok r →
      r.val.distinct.Perm b.distinct ∧ r.val.size = b.size ∧ b.capacity ≤ r.val.capacity) ∧
    (∀ {P : Type} [Payload P] {t : Table k P}, t.InUse →
      fitsMemory k (Payload.width P) t.capacity = true →
      k.load.exceededByWord (t.live + t.tombstones) n t.capacity = t.overLimit n) := by
  refine ⟨fun hgranted hl hasked hle => ?_, fun hs h => ?_, fun hb h => ?_,
    fun h hfits => h.overLimit_eq hfits n⟩
  · obtain ⟨t', hpasses⟩ := hl.passesAll
    exact hpasses.undisturbed hl.sound hasked (Table.overLimit_anti hle hgranted.room)
  · obtain ⟨-, hcontents, hcap⟩ := hs.sound.reserve (ScalarSet.table_reserve h)
    refine ⟨?_, hcap⟩
    rw [← Multiset.coe_eq_coe, ScalarSet.coe_toList, ScalarSet.coe_toList]
    exact congrArg _ hcontents
  · obtain ⟨-, hcontents, hcap⟩ := hb.sound.table.reserve (ScalarBag.table_reserve h)
    obtain ⟨r', -, hval⟩ := ScalarBag.reserve_eq_ok h
    refine ⟨?_, by rw [hval]; rfl, hcap⟩
    rw [← Multiset.coe_eq_coe, ScalarBag.coe_distinct, ScalarBag.coe_distinct]
    exact hcontents

/-- For example a new set with room for ten values, of which eight are put in and all but the even
ones taken out again, before the last two come, and a bag that reserved room for nine more. -/
theorem room_honoured_churn :
    let byte : ℕ → Scalar .u8 := fun n => (Scalar.ofBits? .u8 (UInt64.ofNat n)).getD default
    let even : Scalar .u8 → StateM Unit Bool := fun v => pure (v.bits % 2 == 0)
    let s : ScalarSet .u8 := ⟨.ofSlots 16⟩
    let es : List (SetEdit .u8) :=
      [.extend ((List.range 8).map byte), .retain even () 16, .add (byte 1), .add (byte 100)]
    let b := (ScalarBag.empty.addOccurrences (byte 5) 3).val.2
    let r := (b.reserve 9).toOption.getD (pure b)
    let es' : List (BagEdit .u8) :=
      [.setOccurrences (byte 5) 0, .extend ((List.range 9).map byte), .cursor [.next, .remove]]
    ScalarSet.withCapacity 10 = .ok s ∧ (s.history es).countP Stage.inserted = 10 ∧
      s.table.Undisturbed (s.history es) ∧
      b.reserve 9 = .ok r ∧ (r.val.history es').countP Stage.inserted = 9 ∧
      r.val.table.Undisturbed (r.val.history es') ∧ r.val.distinct.Perm b.distinct := by
  intro byte even s es b r es'
  have hnew : ScalarSet.withCapacity 10 = .ok s := rfl
  have hreserve : b.reserve 9 = .ok r := by
    have hgranted : (b.reserve 9).toBool = true := by
      simp only [b, byte]
      decide +kernel
    cases hr : b.reserve 9 with
    | ok r' => simp only [r, hr, Except.toOption, Option.getD_some]
    | error e => exact absurd (hr ▸ hgranted) (by simp [Except.toBool])
  have hs : s.Reachable := .withCapacity (ScalarSet.tryWithCapacity_of_withCapacity hnew)
  have hb : b.Reachable := .addOccurrences (byte 5) 3 .empty
  obtain ⟨hasked, hcount⟩ : (∀ x ∈ s.history es, x.asked = false) ∧
      (s.history es).countP Stage.inserted = 10 := by
    simp only [s, es, byte, even]
    decide +kernel
  obtain ⟨hasked', hcount'⟩ : (∀ x ∈ r.val.history es', x.asked = false) ∧
      (r.val.history es').countP Stage.inserted = 9 := by
    simp only [r, b, es', byte]
    decide +kernel
  have hset := (room_honoured .u8 10).1 (.newSet hnew) (.set hs es) hasked hcount.le
  obtain ⟨hroom, -, hkept, -⟩ := room_honoured .u8 9
  have hbag := hroom (.bag hb hreserve) (.bag (hb.reserve hreserve) es') hasked' hcount'.le
  exact ⟨hnew, hcount, hset, hreserve, hcount', hbag, (hkept hb hreserve).1⟩

end Slotted
