import Slotted.Proofs.Reachable
import Slotted.Proofs.ScalarBag.Refinement
import Slotted.Proofs.ScalarSet.Refinement

/-!
# What becomes of a request for room

Who asks for room for some values is granted it, and loses nothing, unless one of two limits is in
the way.  If the slots that the values need cannot be counted in machine words, the request is
refused with an error.  If they can, but their arrays would exceed the largest possible allocation,
then only the attempt to allocate them finds that out, and the call is cut short.  Either way
nothing has been changed by then.

## Main definitions

* `Allotment` — what becomes of a request for room, as a relation between the request and the number
  of slots that the table then has.

## Main results

* `Table.allotment_withCapacity`, `Table.Sound.allotment_reserve` — requests made of a table.
* `room_allotted` — requests made of sets and bags, and that none that fails changes them.
* `room_allotted_oversized` — some of them are cut short.
-/

namespace Slotted

variable {k : Kind} {P : Type} {n atLeast payloadWidth : ℕ}

/-- The answer to a request for room for `n` values in a table that has `atLeast` slots already: the
number of slots that it has then, or why it does not get them. -/
inductive Allotment (k : Kind) (payloadWidth n atLeast : ℕ) : Except Failure ℕ → Prop where
  /-- The slots can be counted and allocated. -/
  | granted {slots : ℕ} : Needs k.load n slots → n * k.load.den ≤ maxWord ∧ slots ≤ maxWord →
      fitsMemory k payloadWidth (max slots atLeast) = true →
      Allotment k payloadWidth n atLeast (.ok (max slots atLeast))
  /-- They cannot be counted. -/
  | refused {slots : ℕ} : Needs k.load n slots → ¬ (n * k.load.den ≤ maxWord ∧ slots ≤ maxWord) →
      Allotment k payloadWidth n atLeast (.error (.error (.illegalArgument .capacityOverflow)))
  /-- They can be counted, but their arrays are more than can be allocated. -/
  | oversized {slots : ℕ} : Needs k.load n slots → n * k.load.den ≤ maxWord ∧ slots ≤ maxWord →
      fitsMemory k payloadWidth (max slots atLeast) = false →
      Allotment k payloadWidth n atLeast (.error (.abort .oversizedAllocation))

namespace Allotment

theorem of_slotsFor?_eq_none (h : slotsFor? n k.load = none) :
    Allotment k payloadWidth n atLeast (.error (.error (.illegalArgument .capacityOverflow))) := by
  obtain ⟨slots, hslots⟩ := exists_needs k.load_num_pos n
  exact refused hslots ((hslots.slotsFor?_eq_none_iff k.load_num_pos).1 h)

/-- Slots that can be counted are granted, or are more than can be allocated. -/
theorem of_needs {α : Type} {length : α → ℕ} {x : α} {slots total : ℕ}
    (hneeds : Needs k.load n slots) (hwords : n * k.load.den ≤ maxWord ∧ slots ≤ maxWord)
    (htotal : total = max slots atLeast) (hlength : length x = total) :
    Allotment k payloadWidth n atLeast
      (length <$> if fitsMemory k payloadWidth total then .ok x
        else .error (.abort .oversizedAllocation)) := by
  subst htotal
  split
  · next hfits =>
    show Allotment k payloadWidth n atLeast (.ok (length x))
    rw [hlength]
    exact .granted hneeds hwords hfits
  · next hfits => exact .oversized hneeds hwords (Bool.eq_false_of_not_eq_true hfits)

end Allotment

namespace Table

variable {t : Table k P}

theorem allotment_withCapacity (k : Kind) (P : Type) [Payload P] (n : ℕ) :
    Allotment k (Payload.width P) n 0
      (capacity <$> (withCapacity n : Except Failure (Table k P))) := by
  unfold withCapacity
  cases hslots : slotsFor? n k.load with
  | none => exact .of_slotsFor?_eq_none hslots
  | some slots =>
    obtain ⟨hneeds, hwords⟩ := (slotsFor?_eq_some_iff k.load_num_pos).1 hslots
    exact .of_needs hneeds hwords (Nat.max_zero slots).symm (capacity_ofSlots slots)

theorem Sound.allotment_reserve [Payload P] (ht : t.Sound) (hfull : t.overLimit n = true) :
    Allotment k (Payload.width P) (t.live + n) t.capacity
      ((fun r => r.val.capacity) <$> t.reserve n) := by
  unfold Table.reserve
  rw [hfull]
  simp only [Bool.not_true, Bool.false_eq_true, if_false]
  split
  · next hword =>
    -- a number of values that is no word has no slots that could be counted, either
    obtain ⟨slots, hneeds⟩ := exists_needs k.load_num_pos (t.live + n)
    refine .refused hneeds fun hwords => ?_
    have hden : t.live + n ≤ (t.live + n) * k.load.den :=
      Nat.le_mul_of_pos_right _ k.load_den_pos
    omega
  · cases hslots : slotsFor? (t.live + n) k.load with
    | none => exact .of_slotsFor?_eq_none hslots
    | some slots =>
      obtain ⟨hneeds, hwords⟩ := (slotsFor?_eq_some_iff k.load_num_pos).1 hslots
      exact .of_needs hneeds hwords rfl (ht.resized_max hslots).2.2.1

end Table

/-! ### Sets and bags -/

/-- What is made of an answer fails as the answer does. -/
theorem map_eq_error_iff {ε α β : Type} {f : α → β} {x : Except ε α} {e : ε} :
    f <$> x = .error e ↔ x = .error e := by
  cases x <;> simp [Functor.map, Except.map]

namespace ScalarSet

variable {s : ScalarSet k}

theorem allotment_tryWithCapacity (k : Kind) (n : ℕ) :
    Allotment k 0 n 0 (capacity <$> (tryWithCapacity n : Except Failure (ScalarSet k))) := by
  unfold tryWithCapacity
  rw [Functor.map_map]
  exact Table.allotment_withCapacity k Unit n

theorem allotment_reserve (hs : s.table.Sound) (hfull : s.table.overLimit n = true) :
    Allotment k 0 (s.size + n) s.capacity ((fun r => r.val.capacity) <$> s.reserve n) := by
  unfold reserve
  rw [Functor.map_map]
  exact hs.allotment_reserve hfull

theorem reserve_of_room (h : s.table.overLimit n = false) : s.reserve n = .ok (pure s) := by
  unfold reserve
  rw [Table.reserve_of_room h]
  rfl

theorem perm_of_reserve (hs : s.table.Sound) {r : Traced (ScalarSet k)} (h : s.reserve n = .ok r) :
    r.val.toList.Perm s.toList := by
  rw [← Multiset.coe_eq_coe, coe_toList, coe_toList, (sound_reserve hs h).2]

end ScalarSet

namespace ScalarBag

variable {b : ScalarBag k}

theorem allotment_tryWithCapacity (k : Kind) (n : ℕ) :
    Allotment k 8 n 0 (capacity <$> (tryWithCapacity n : Except Failure (ScalarBag k))) := by
  unfold tryWithCapacity
  rw [Functor.map_map]
  exact Table.allotment_withCapacity k ℕ n

theorem allotment_reserve (hb : b.Sound) (hfull : b.table.overLimit n = true) :
    Allotment k 8 (b.distinctSize + n) b.capacity ((fun r => r.val.capacity) <$> b.reserve n) := by
  unfold reserve
  rw [Functor.map_map]
  exact hb.table.allotment_reserve hfull

theorem reserve_of_room (h : b.table.overLimit n = false) : b.reserve n = .ok (pure b) := by
  unfold reserve
  rw [Table.reserve_of_room h]
  rfl

theorem perm_of_reserve (hb : b.Sound) {r : Traced (ScalarBag k)} (h : b.reserve n = .ok r) :
    r.val.distinct.Perm b.distinct ∧ r.val.size = b.size := by
  constructor
  · rw [← Multiset.coe_eq_coe, coe_distinct, coe_distinct, (sound_reserve hb h).2]
  · obtain ⟨r', -, hval⟩ := reserve_eq_ok h
    rw [hval]
    rfl

end ScalarBag

/-- **A request for room is granted unless the slots cannot be counted or allocated, and one that
fails changes nothing.**  A new set or bag with room for some values, and room for more of them in
one that operations lead to, come with as many slots as those values need, and never fewer than
before.  The request is refused with an error just if the slots, or the numbers on the way to them,
are not machine words; and it is cut short just if they are, and their arrays exceed the largest
possible allocation.  A new container is empty, and in another the contents stay; it is not touched
at all if there is room already, or if the request fails. -/
theorem room_allotted (k : Kind) (n : ℕ) :
    (Allotment k 0 n 0
      (ScalarSet.capacity <$> (ScalarSet.tryWithCapacity n : Except Failure (ScalarSet k))) ∧
      ∀ s : ScalarSet k, ScalarSet.tryWithCapacity n = .ok s → s.toList = []) ∧
    (Allotment k 8 n 0
      (ScalarBag.capacity <$> (ScalarBag.tryWithCapacity n : Except Failure (ScalarBag k))) ∧
      ∀ b : ScalarBag k, ScalarBag.tryWithCapacity n = .ok b → b.distinct = [] ∧ b.size = 0) ∧
    (∀ s : ScalarSet k, s.Reachable →
      (s.table.overLimit n = false → s.reserve n = .ok (pure s)) ∧
      (s.table.overLimit n = true →
        Allotment k 0 (s.size + n) s.capacity ((fun r => r.val.capacity) <$> s.reserve n)) ∧
      (∀ r, s.reserve n = .ok r → r.val.toList.Perm s.toList) ∧
      ∀ why, s.reserve n = .error why → (SetCall.reserve n).run s = (.refused why, s)) ∧
    (∀ b : ScalarBag k, b.Reachable →
      (b.table.overLimit n = false → b.reserve n = .ok (pure b)) ∧
      (b.table.overLimit n = true → Allotment k 8 (b.distinctSize + n) b.capacity
        ((fun r => r.val.capacity) <$> b.reserve n)) ∧
      (∀ r, b.reserve n = .ok r → r.val.distinct.Perm b.distinct ∧ r.val.size = b.size) ∧
      ∀ why, b.reserve n = .error why → (BagCall.reserve n).run b = (.refused why, b)) := by
  refine ⟨⟨ScalarSet.allotment_tryWithCapacity k n, fun s => ScalarSet.toList_of_tryWithCapacity⟩,
    ⟨ScalarBag.allotment_tryWithCapacity k n, fun b h =>
      ⟨ScalarBag.distinct_of_tryWithCapacity h, (ScalarBag.tryWithCapacity_eq_ok h).2⟩⟩,
    fun s hs => ⟨ScalarSet.reserve_of_room, ScalarSet.allotment_reserve hs.sound, fun r hr => ?_,
      fun why hwhy => ?_⟩,
    fun b hb => ⟨ScalarBag.reserve_of_room, ScalarBag.allotment_reserve hb.sound, fun r hr => ?_,
      fun why hwhy => ?_⟩⟩
  · exact ScalarSet.perm_of_reserve hs.sound hr
  · rw [SetCall.run, hwhy]
  · exact ScalarBag.perm_of_reserve hb.sound hr
  · rw [BagCall.run, hwhy]

/-- For example more room in a set of one element, which has some already, and for more values than
there can be slots; and in a bag. -/
theorem room_allotted_refused :
    let one : Scalar .i64 := ⟨1, by decide⟩
    let s := (ScalarSet.empty.add one).val.2
    let byte : Scalar .u8 := ⟨1, by decide⟩
    let b := (ScalarBag.empty.addOccurrences byte 5).val.2
    s.Reachable ∧ s.table.overLimit 3 = false ∧ s.reserve 3 = .ok (pure s) ∧
      s.table.overLimit (2 ^ 62) = true ∧
      s.reserve (2 ^ 62) = .error (.error (.illegalArgument .capacityOverflow)) ∧
      (SetCall.reserve (2 ^ 62)).run s
        = (.refused (.error (.illegalArgument .capacityOverflow)), s) ∧
      b.Reachable ∧ b.table.overLimit 12 = true ∧
      Allotment .u8 8 (b.distinctSize + 12) b.capacity
        ((fun r => r.val.capacity) <$> b.reserve 12) ∧
      ((fun r => r.val.capacity) <$> b.reserve 12) = .ok 32 := by
  intro one s byte b
  have hs : s.Reachable := .add _ .empty
  have hb : b.Reachable := .addOccurrences _ _ .empty
  obtain ⟨hroom, hfull, hcut, hfull', hcap⟩ : s.table.overLimit 3 = false ∧
      s.table.overLimit (2 ^ 62) = true ∧
      ((fun r => r.val.capacity) <$> s.reserve (2 ^ 62))
        = .error (.error (.illegalArgument .capacityOverflow)) ∧
      b.table.overLimit 12 = true ∧
      ((fun r => r.val.capacity) <$> b.reserve 12) = .ok 32 := by
    simp only [s, b, one, byte]
    decide +kernel
  have hrefused := map_eq_error_iff.1 hcut
  obtain ⟨-, -, hsets, -⟩ := room_allotted .i64 3
  obtain ⟨-, -, hsets', -⟩ := room_allotted .i64 (2 ^ 62)
  obtain ⟨-, -, -, hbags⟩ := room_allotted .u8 12
  exact ⟨hs, hroom, (hsets s hs).1 hroom, hfull, hrefused, (hsets' s hs).2.2.2 _ hrefused, hb,
    hfull', (hbags b hb).2.1 hfull', hcap⟩

/-- Some requests are cut short: of a new set for 2⁶¹ integers, whose 2⁶³ slots can be counted but
not allocated, of a new bag of bytes for one less than 2⁶², and of a set of one element. -/
theorem room_allotted_oversized :
    let one : Scalar .i64 := ⟨1, by decide⟩
    let s := (ScalarSet.empty.add one).val.2
    (ScalarSet.tryWithCapacity (2 ^ 61) : Except Failure (ScalarSet .i64))
        = .error (.abort .oversizedAllocation) ∧
      (ScalarBag.tryWithCapacity (2 ^ 62 - 1) : Except Failure (ScalarBag .i8))
        = .error (.abort .oversizedAllocation) ∧
      s.Reachable ∧ s.reserve (2 ^ 61 - 1) = .error (.abort .oversizedAllocation) ∧
      Abort.oversizedAllocation.message = "capacity overflow" := by
  intro one s
  have hcut : ((fun r => r.val.capacity) <$> s.reserve (2 ^ 61 - 1))
      = .error (.abort .oversizedAllocation) := by
    simp only [s, one]
    decide +kernel
  exact ⟨rfl, rfl, .add _ .empty, map_eq_error_iff.1 hcut, rfl⟩

end Slotted
