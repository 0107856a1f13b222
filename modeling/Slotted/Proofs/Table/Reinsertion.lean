import Slotted.Proofs.Reachable

/-!
# Rebuilding a table, with nothing that bounds the walk

A rebuild walks the probe sequence of each value until it stands at an empty slot.  It compares no
keys on the way and counts no steps, so a value that met no empty slot would be walked for ever.
Here the walk is a relation of its own, with one rule for each way a step may go; that it relates a
value to a slot says that the walk ends, and there.  Each walk ends because the table filled so far
still takes the values to come (`Table.Takes`).

What a table tells of a value is what a search for it finds.  That depends on the contents alone,
so a rebuilt table, having the same contents, tells the same.

## Main definitions

* `Table.WalksTo` — the walk from a position on a probe sequence to the first empty slot.
* `Table.Refills` — the values of a list of slots, each put where its walk ends.
* `Table.lookup` — the stored value and the payload that a search finds.
* `Table.RebuiltAs`, `Table.Rebuilds` — what is asked of a rebuilt table.

## Main results

* `Table.Takes.refills` — into a table that takes them, the values of a list of slots are put.
* `Table.Sound.lookup_congr` — sound tables with the same contents tell the same.
* `Table.InUse.rebuild_preserves` — every rebuild of a table in use ends, and preserves it.
-/

namespace Slotted
namespace Table

variable {k : Kind} {P : Type} {t t' : Table k P} {i j : ℕ} {v : Scalar k} {l : List (Slot k P)}

/-! ### The walk to an empty slot -/

/-- From a position on a probe sequence, the first empty slot is `i`. -/
inductive WalksTo (t : Table k P) : Probe → ℕ → Prop where
  /-- The slot is empty. -/
  | stop {p : Probe} : t.slots[p.pos]? = some .empty → WalksTo t p p.pos
  /-- The slot is not empty: the walk goes on. -/
  | move {p : Probe} {s : Slot k P} {i : ℕ} :
      t.slots[p.pos]? = some s → s ≠ .empty → WalksTo t p.next i → WalksTo t p i

/-- A bounded search that found an empty slot was a walk to it. -/
theorem walksTo_of_firstEmpty {fuel : ℕ} {p : Probe} (hpos : p.pos < t.capacity)
    (hmask : p.mask < t.capacity) (h : t.firstEmpty fuel p = some i) : t.WalksTo p i := by
  induction fuel generalizing p with
  | zero => exact absurd h (by simp [firstEmpty])
  | succ fuel ih =>
    obtain ⟨s, hs⟩ := exists_getElem?_of_lt hpos
    by_cases hne : s = .empty
    · subst hne
      rw [firstEmpty_of_empty hs] at h
      rw [← Option.some.inj h]
      exact .stop hs
    · rw [firstEmpty_of_ne hs hne] at h
      exact .move hs hne (ih (lt_of_le_of_lt p.pos_next_le hmask) hmask h)

/-- From the home slot of a hash, if the table has slots. -/
theorem walksTo_start_of_firstEmpty {hash : UInt64} {fuel : ℕ} (hcap : t.capacity ≠ 0)
    (h : t.firstEmpty fuel (Probe.start hash t.capacity) = some i) :
    t.WalksTo (Probe.start hash t.capacity) i := by
  have hmask : t.capacity - 1 < t.capacity := by omega
  exact walksTo_of_firstEmpty (lt_of_le_of_lt (Probe.pos_start_le hash _) hmask) hmask h

/-- The walk has one end. -/
theorem WalksTo.unique {p : Probe} (hi : t.WalksTo p i) (hj : t.WalksTo p j) : i = j := by
  induction hi with
  | stop hs =>
    cases hj with
    | stop _ => rfl
    | move hs' hne _ => exact absurd (Option.some.inj (hs'.symm.trans hs)) hne
  | move hs hne _ ih =>
    cases hj with
    | stop hs' => exact absurd (Option.some.inj (hs.symm.trans hs')) hne
    | move _ _ hj => exact ih hj

/-! ### Refilling a table -/

/-- The values of a list of slots are put into a table, each where its walk ends. -/
inductive Refills : Table k P → List (Slot k P) → Table k P → Prop where
  /-- No slot is left. -/
  | nil {t : Table k P} : Refills t [] t
  /-- The slot holds no value. -/
  | skip {t t' : Table k P} {s : Slot k P} {l : List (Slot k P)} :
      s.content? = none → Refills t l t' → Refills t (s :: l) t'
  /-- The slot holds a value, and its walk ends. -/
  | put {t t' : Table k P} {v : Scalar k} {p : P} {i : ℕ} {l : List (Slot k P)} :
      t.WalksTo (Probe.start v.hash t.capacity) i → Refills (t.occupy i v p) l t' →
      Refills t (.live v p :: l) t'

/-- Into a table that takes them the values of a list of slots are put: every walk ends. -/
theorem Takes.refills (h : t.Takes l) : t.Refills l (l.foldl takeOver t) := by
  induction l generalizing t with
  | nil => exact .nil
  | cons s l ih =>
    rw [List.foldl_cons]
    rcases hs : s.content? with _ | ⟨v, p⟩
    · rw [takeOver_of_content?_eq_none hs]
      exact .skip hs (ih (h.of_content?_eq_none hs))
    · obtain rfl := Slot.content?_eq_some hs
      obtain ⟨i, hfirst, -, hnext⟩ := h.exists_occupy
      have hmove : t.takeOver (.live v p) = t.occupy i v p := reinsert_of_firstEmpty hfirst p
      rw [hmove]
      exact .put (walksTo_start_of_firstEmpty h.capacity_ne_zero hfirst) (ih hnext)

/-- There is one table that comes of it. -/
theorem Refills.unique {t₁ t₂ : Table k P} (h₁ : t.Refills l t₁) (h₂ : t.Refills l t₂) :
    t₁ = t₂ := by
  induction h₁ with
  | nil =>
    cases h₂
    rfl
  | skip hs _ ih =>
    cases h₂ with
    | skip _ h₂ => exact ih h₂
    | put _ _ => exact absurd hs (by simp)
  | put hi _ ih =>
    cases h₂ with
    | skip hs _ => exact absurd hs (by simp)
    | put hj h₂ =>
      obtain rfl := hi.unique hj
      exact ih h₂

/-! ### What a table tells of a value -/

/-- The stored value and the payload that a search for a value finds. -/
def lookup (t : Table k P) (v : Scalar k) : Option (Scalar k × P) := (t.find v).bind t.entry?

theorem isSome_lookup (t : Table k P) (v : Scalar k) :
    (t.lookup v).isSome = (t.find v).isSome := by
  rw [lookup]
  cases h : t.find v with
  | none => rfl
  | some i =>
    obtain ⟨w, p, hs, -⟩ := exists_live_of_find h
    rw [Option.bind_some, entry?_eq_some_iff.2 hs]
    rfl

/-- What is told of a value is what the table holds with its key. -/
theorem Sound.lookup_eq_some_iff (ht : t.Sound) {c : Scalar k × P} :
    t.lookup v = some c ↔ c ∈ t.contents ∧ c.1.key = v.key := by
  rw [lookup, Option.bind_eq_some_iff]
  constructor
  · rintro ⟨i, hfind, hentry⟩
    obtain ⟨w, p, hs, hkey⟩ := exists_live_of_find hfind
    rw [entry?_eq_some_iff.2 hs] at hentry
    obtain rfl := Option.some.inj hentry
    exact ⟨mem_contents_iff.2 ⟨i, hs⟩, hkey⟩
  · rintro ⟨hmem, hkey⟩
    obtain ⟨i, hs⟩ := mem_contents_iff.1 hmem
    exact ⟨i, ht.find_eq_some_iff.2 ⟨c.1, c.2, hs, hkey⟩, entry?_eq_some_iff.2 hs⟩

/-- Sound tables with the same contents tell the same. -/
theorem Sound.lookup_congr (ht : t.Sound) (ht' : t'.Sound) (h : t'.contents = t.contents)
    (v : Scalar k) : t'.lookup v = t.lookup v := by
  refine Option.ext fun c => ?_
  rw [ht.lookup_eq_some_iff, ht'.lookup_eq_some_iff, h]

/-! ### Rebuilds -/

/-- `t'` is a faithful rebuild of `t` with `n` slots. -/
structure RebuiltAs (t : Table k P) (n : ℕ) (t' : Table k P) : Prop where
  /-- It comes of walking every value of `t` to an empty slot. -/
  refills : (ofSlots n).Refills t.slots.toList t'
  /-- Nothing else comes of that. -/
  unique : ∀ u, (ofSlots n).Refills t.slots.toList u → u = t'
  /-- It keeps the invariant. -/
  sound : t'.Sound
  /-- It has the length asked for. -/
  capacity : t'.capacity = n
  /-- It has no tombstones. -/
  tombstones : t'.tombstones = 0
  /-- It has as many values. -/
  live : t'.live = t.live
  /-- A value is found in it if it was found before. -/
  find : ∀ v, (t'.find v).isSome = (t.find v).isSome
  /-- It tells the same stored value and payload. -/
  lookup : ∀ v, t'.lookup v = t.lookup v

/-- The computation rebuilt the table once, faithfully and with at least as many slots. -/
def Rebuilds (t : Table k P) (r : Traced (Table k P)) : Prop :=
  ∃ n, t.capacity ≤ n ∧ r = t.rebuild n ∧ t.RebuiltAs n r.val

theorem Sound.rebuiltAs (ht : t.Sound) {n : ℕ} (hn : IsTableLength n) (hle : t.capacity ≤ n) :
    t.RebuiltAs n (t.rebuild n).val := by
  have hroom : t.live * k.load.den ≤ n * k.load.num :=
    le_trans ht.live_mul_den_le (Nat.mul_le_mul_right _ hle)
  have hrefills : (ofSlots n).Refills t.slots.toList (t.resized n) := by
    rw [resized_eq_foldl]
    exact (ht.takes_ofSlots hn hroom).refills
  obtain ⟨hsound, hcontents, hcap, htomb⟩ := ht.resized hn hroom
  have hlookup := ht.lookup_congr hsound hcontents
  exact {
    refills := hrefills
    unique := fun _ hu => hu.unique hrefills
    sound := hsound
    capacity := hcap
    tombstones := htomb
    live := show (t.resized n).live = t.live by
      rw [hsound.live_eq_card, hcontents, ht.live_eq_card]
    find := fun v => show ((t.resized n).find v).isSome = (t.find v).isSome by
      rw [← isSome_lookup, ← isSome_lookup, hlookup]
    lookup := hlookup }

theorem Sound.rebuilds (ht : t.Sound) {n : ℕ} (hn : IsTableLength n) (hle : t.capacity ≤ n) :
    t.Rebuilds (t.rebuild n) := ⟨n, hle, rfl, ht.rebuiltAs hn hle⟩

theorem capacity_le_grownCapacity (t : Table k P) : t.capacity ≤ t.grownCapacity := by
  unfold grownCapacity
  split <;> omega

/-- **Every rebuild of a table in use ends, and preserves what the table tells.**  Whatever length
it is given that is not below its own, each value is walked to an empty slot, and the table that
comes of it is sound, has no tombstones, and finds the same values with the same payloads.  The
first slots a table is given, the room made for one more value and the room asked for in advance
are such rebuilds, if the table is rebuilt at all. -/
theorem InUse.rebuild_preserves [Payload P] (h : t.InUse) :
    (∀ n, IsTableLength n → t.capacity ≤ n → t.RebuiltAs n (t.rebuild n).val) ∧
      (t.capacity = 0 → t.Rebuilds t.allocated) ∧
      t.Rebuilds t.grow ∧
      ∀ n r, t.reserve n = .ok r → r = pure t ∨ t.Rebuilds r := by
  have ht := h.sound
  refine ⟨fun n => ht.rebuiltAs, fun hcap => ?_, ?_, fun n r hok => ?_⟩
  · rw [allocated, if_pos hcap]
    exact ht.rebuilds isTableLength_minSlots (by omega)
  · exact ht.rebuilds ht.isTableLength_grownCapacity t.capacity_le_grownCapacity
  · rcases reserve_eq_ok hok with rfl | ⟨s, hs, rfl⟩
    · exact Or.inl rfl
    · exact Or.inr (ht.rebuilds ((isTableLength_slotsFor? hs).max ht.length) (le_max_right _ _))

/-- For example the table of a bag that holds one value three times, and held another: rebuilt at
the double it finds the first with its count. -/
theorem InUse.rebuild_preserves_after_removal :
    let five : Scalar .u8 := ⟨5, by decide⟩
    let nine : Scalar .u8 := ⟨9, by decide⟩
    let t := (((ScalarBag.empty.addOccurrences five 3).val.2.add nine).val.2.remove nine).2.table
    t.InUse ∧ t.capacity = 8 ∧ t.tombstones = 1 ∧ t.RebuiltAs 8 (t.rebuild 8).val ∧
      t.RebuiltAs 16 (t.rebuild 16).val ∧ (t.rebuild 16).val.lookup five = some (five, 3) := by
  intro five nine t
  have huse : t.InUse := .bag (.remove nine (.add nine (.addOccurrences five 3 .empty)))
  obtain ⟨hcap, htomb, hfive⟩ : t.capacity = 8 ∧ t.tombstones = 1 ∧
      t.lookup five = some (five, 3) := by
    simp only [t, five, nine]
    decide +kernel
  obtain ⟨hrebuilt, -, -, -⟩ := InUse.rebuild_preserves huse
  have h8 := hrebuilt 8 isTableLength_minSlots (by omega)
  have h16 := hrebuilt 16 isTableLength_minSlots.mul_two (by omega)
  exact ⟨huse, hcap, htomb, h8, h16, (h16.lookup five).trans hfive⟩

end Table
end Slotted
