import Slotted.Proofs.Table.Reinsertion
import Slotted.Proofs.Table.Thinned

/-!
# What one change may do to a table

Whatever is done to a container, its table passes from one stage to the next in one of three ways.
A value that was absent is put into a free slot, after room was made for it.  Or nothing is put in:
then no more slots are in use than before, and what is still there is where it was.  Or room is
asked for in advance.  Only the first and the last of them rebuild the table, and the first one only
if the table has no slots or the value would take an empty slot over the load limit.

## Main definitions

* `Stage` — what a change did, and the table after it.
* `Stage.grew` — the change rebuilt a table that had slots, without being asked for room.
* `Table.MakesRoom` — how `entry` makes room for a value.
* `Table.Eases`, `Table.Keeps` — what a change may do that puts nothing in, or that rebuilds nothing.
* `Table.Passes`, `Table.PassesAll` — how a table may pass to another stage, and through many.

## Main results

* `Table.exists_makesRoom` — `entry` makes room in one of three ways.
* `Table.exists_passes_adding` — a value that is absent is put in by such a change.
* `Table.Passes.sound`, `capacity_le`, `used_le` — what holds of every change.
-/

namespace Slotted

variable {k : Kind} {P : Type}

/-- What a change of a container did on the way, and the table after it. -/
structure Stage (k : Kind) (P : Type) where
  /-- A value was put in that was absent. -/
  inserted : Bool
  /-- Room was asked for in advance. -/
  asked : Bool
  /-- The rebuilds, oldest first. -/
  rebuilds : List Rebuild
  /-- The table after the change. -/
  table : Table k P

namespace Stage

/-- The table was rebuilt to make room for a value: it had slots, and nobody had asked for more. -/
def grew (x : Stage k P) : Bool := !x.asked && x.rebuilds.any fun r => r.oldCapacity != 0

theorem countP_inserted_cons (x : Stage k P) (l : List (Stage k P)) :
    (x :: l).countP inserted = l.countP inserted + x.inserted.toNat := by
  rw [List.countP_cons]
  cases x.inserted <;> rfl

/-- The stage after a change that may put a value into a table. -/
def adding (t : Table k P) (v : Scalar k) (r : Traced (Table k P)) : Stage k P :=
  ⟨(t.find v).isNone && (r.val.find v).isSome, false, r.rebuilds, r.val⟩

/-- The stage after a change that puts in nothing and cannot rebuild. -/
def easing (t : Table k P) : Stage k P := ⟨false, false, [], t⟩

/-- The stage after a request for room, which may be refused. -/
def reserving (t : Table k P) : Except Failure (Traced (Table k P)) → Stage k P
  | .ok r => ⟨false, true, r.rebuilds, r.val⟩
  | .error _ => ⟨false, true, [], t⟩

theorem adding_of_found {t : Table k P} {v : Scalar k} (h : (t.find v).isSome = true)
    (t' : Table k P) : adding t v (pure t') = easing t' := by
  rw [adding, Option.isNone_eq_false_iff.2 h]
  rfl

theorem adding_self (t : Table k P) (v : Scalar k) : adding t v (pure t) = easing t := by
  cases h : t.find v with
  | none =>
    rw [adding, Traced.val_pure, h]
    rfl
  | some i => exact adding_of_found (by rw [h, Option.isSome_some]) t

end Stage

namespace Table

variable {t t' t'' : Table k P} {r : Traced (Table k P)} {x : Stage k P} {i : ℕ} {v : Scalar k}

/-! ### Changes that put nothing in -/

/-- Any two payloads, where payloads do not matter. -/
def AnyPayload (_ _ : P) : Prop := True

instance : IsPreorder P AnyPayload where
  refl _ := trivial
  trans _ _ _ _ _ := trivial

/-- Nothing was put in: what is there was there before, in the same slot, and no more slots are in
use. -/
structure Eases (t t' : Table k P) : Prop where
  /-- The invariant holds. -/
  sound : t'.Sound
  /-- What is there was in its slot before, with some payload. -/
  thinned : t.Thinned AnyPayload t'
  /-- The slots in use are no more than before. -/
  used : t'.live + t'.tombstones ≤ t.live + t.tombstones

namespace Eases

theorem refl (ht : t.Sound) : t.Eases t := ⟨ht, .refl t, le_rfl⟩

theorem trans (h : t.Eases t') (h' : t'.Eases t'') : t.Eases t'' :=
  ⟨h'.sound, h.thinned.trans h'.thinned, h'.used.trans h.used⟩

/-- A value that goes leaves a tombstone. -/
theorem vacate {p : P} (ht : t.Sound) (h : t.slots[i]? = some (.live v p)) :
    t.Eases (t.vacate i) := by
  refine ⟨ht.vacate h, .vacate t i, ?_⟩
  have hpos := ht.live_pos h
  show t.live - 1 + (t.tombstones + 1) ≤ _
  omega

theorem setPayload (ht : t.Sound) (i : ℕ) (q : P) : t.Eases (t.setPayload i q) := by
  refine ⟨ht.setPayload i q, .setPayload t fun _ _ _ => trivial, ?_⟩
  unfold Table.setPayload
  split <;> exact le_rfl

theorem clear (ht : t.Sound) : t.Eases t.clear where
  sound := ht.clear
  thinned := ⟨capacity_ofSlots _, fun h => absurd (eq_empty_of_getElem?_ofSlots h) (by simp)⟩
  used := Nat.zero_le _

/-- Freeing entries of different slots. -/
theorem free {σ : Type} (ht : t.Sound) (freed : σ → P → σ) (account : σ) {es : List (Entry k P)}
    (hslots : es.Pairwise fun e e' => e.slot ≠ e'.slot)
    (hlive : ∀ e ∈ es, t.slots[e.slot]? = some (.live e.value e.payload)) :
    t.Eases (Table.free freed t account es).1 := by
  induction es generalizing t account with
  | nil => exact refl ht
  | cons e es ih =>
    obtain ⟨hfirst, hrest⟩ := List.pairwise_cons.1 hslots
    have hvacate := vacate ht (hlive e List.mem_cons_self)
    refine hvacate.trans (ih hvacate.sound _ hrest fun e' he' => ?_)
    rw [getElem?_vacate_ne (hfirst e' he')]
    exact hlive e' (List.mem_cons_of_mem e he')

/-- Filtering the first `n` slots, whatever the predicate does besides. -/
theorem filterFromM {σ τ : Type} (ht : t.Sound) (freed : τ → P → τ)
    (keep : Scalar k → P → StateM σ Bool) (n : ℕ) (account : τ) (start : σ) :
    t.Eases ((Table.filterFromM freed keep n 0 t account).run start).1.1 := by
  -- the slots looked at are a part of the table, and those freed a part of them
  have hsub := sublist_rejectedM (fun e : Entry k P => keep e.value e.payload)
    (t.scan 0 (0 + n)) start
  rw [Table.filterFromM_eq]
  exact free ht freed account ((t.pairwise_slot_scan 0 (0 + n)).sublist hsub)
    fun e he => getElem?_of_mem_scan (hsub.subset he)

end Eases

/-- Nothing was rebuilt: the number of slots has stayed, and a value that is still found is in its
slot. -/
structure Keeps (t t' : Table k P) : Prop where
  /-- The number of slots. -/
  capacity : t'.capacity = t.capacity
  /-- The slot of a value that is still found. -/
  slot : ∀ {i : ℕ} {v : Scalar k} {p : P}, t.slots[i]? = some (.live v p) →
    (t'.find v).isSome = true → ∃ q, t'.slots[i]? = some (.live v q)

theorem Eases.keeps (h : t.Eases t') (ht : t.Sound) : t.Keeps t' where
  capacity := h.thinned.capacity
  slot := by
    intro i v p hslot hsome
    -- what is found was there before, and two slots do not hold one key
    obtain ⟨j, hj⟩ := Option.isSome_iff_exists.1 hsome
    obtain ⟨w, q, hw, hkey⟩ := exists_live_of_find hj
    obtain ⟨p', hold, -⟩ := h.thinned.slot hw
    obtain rfl := ht.distinct hold hslot hkey
    obtain ⟨rfl, -⟩ := Slot.live.inj (Option.some.inj (hold.symm.trans hslot))
    exact ⟨q, hw⟩

theorem getElem?_occupy_self (h : t.slots[i]? = some .tombstone ∨ t.slots[i]? = some .empty)
    (v : Scalar k) (p : P) : (t.occupy i v p).slots[i]? = some (.live v p) := by
  have hlt : i < t.capacity := h.elim lt_capacity_of_getElem? lt_capacity_of_getElem?
  exact getElem?_update_self hlt ..

theorem keeps_occupy (h : t.slots[i]? = some .tombstone ∨ t.slots[i]? = some .empty)
    (v : Scalar k) (p : P) : t.Keeps (t.occupy i v p) where
  capacity := capacity_occupy t i v p
  slot := by
    intro j w q hslot _
    have hne : i ≠ j := by
      rintro rfl
      rcases h with h | h <;> exact absurd (h.symm.trans hslot) (by simp)
    exact ⟨q, (getElem?_update_ne hne ..).trans hslot⟩

/-! ### Making room for a value -/

/-- The ways in which `entry` makes room for a value. -/
inductive MakesRoom (t : Table k P) : Traced (Table k P) → Prop where
  /-- There is room. -/
  | ready (hcap : t.capacity ≠ 0) : t.MakesRoom (pure t)
  /-- A table without slots is given its first ones. -/
  | first (hcap : t.capacity = 0) : t.MakesRoom (t.rebuild minSlots)
  /-- A table in which one more slot would be too many is grown. -/
  | grown (hcap : t.capacity ≠ 0) (hfull : t.overLimit 1 = true) : t.MakesRoom t.grow

theorem exists_makesRoom_of_ne (hcap : t.capacity ≠ 0) (v : Scalar k) :
    ∃ r, t.MakesRoom r ∧ (t.entry v).val.1 = r.val ∧ (t.entry v).rebuilds = r.rebuilds := by
  rw [entry, allocated_eq_pure hcap, pure_bind]
  split
  · split
    · exact ⟨pure t, .ready hcap, rfl, rfl⟩
    · next hfull =>
      rw [Bool.or_eq_true, not_or, Bool.not_eq_true', Bool.not_eq_false] at hfull
      exact ⟨t.grow, .grown hcap hfull.2, rfl, List.append_nil _⟩
  · exact ⟨pure t, .ready hcap, rfl, rfl⟩

/-- The first slots have room for a value, so that they are not at once too few. -/
theorem Sound.overLimit_resized_minSlots (ht : t.Sound) (hcap : t.capacity = 0) :
    (t.resized minSlots).overLimit 1 = false := by
  obtain ⟨hsound, hcontents, hlen, htomb⟩ := ht.resized_minSlots hcap
  rw [not_overLimit_iff, ht.live_congr hsound hcontents, ht.live_eq_zero hcap, htomb, hlen]
  calc (0 + 0 + 1) * k.load.den = k.load.den := Nat.one_mul _
    _ ≤ minSlots := (load_den_le k).trans (by decide)
    _ ≤ minSlots * k.load.num := Nat.le_mul_of_pos_right _ k.load_num_pos

/-- `entry` makes room in one of these ways, if it has to. -/
theorem exists_makesRoom (ht : t.Sound) (v : Scalar k) :
    ∃ r, t.MakesRoom r ∧ (t.entry v).val.1 = r.val ∧ (t.entry v).rebuilds = r.rebuilds := by
  by_cases hcap : t.capacity = 0
  · have hnew := ht.capacity_resized_minSlots_ne hcap
    obtain ⟨r, hr, hval, hrebuilds⟩ := exists_makesRoom_of_ne hnew v
    refine ⟨t.rebuild minSlots, .first hcap, ?_⟩
    rw [ht.entry_of_capacity_eq_zero hcap, Traced.val_bind, Traced.rebuilds_bind]
    -- the table that was just rebuilt is not rebuilt again
    cases hr with
    | ready _ => exact ⟨hval, (congrArg _ hrebuilds).trans (List.append_nil _)⟩
    | first hzero => exact absurd hzero hnew
    | grown _ hfull => exact absurd ((ht.overLimit_resized_minSlots hcap).symm.trans hfull) (by simp)
  · exact exists_makesRoom_of_ne hcap v

/-- Making room loses nothing, neither values nor slots. -/
theorem MakesRoom.spec (h : t.MakesRoom r) (ht : t.Sound) :
    r.val.Sound ∧ r.val.live = t.live ∧ t.capacity ≤ r.val.capacity ∧
      r.val.tombstones ≤ t.tombstones := by
  cases h with
  | ready _ => exact ⟨ht, rfl, le_rfl, le_rfl⟩
  | first hcap =>
    obtain ⟨hsound, hcontents, -, htomb⟩ := ht.resized_minSlots hcap
    exact ⟨hsound, ht.live_congr hsound hcontents, by omega, htomb.trans_le (Nat.zero_le _)⟩
  | grown hcap _ =>
    obtain ⟨hsound, hcontents, hlen, htomb⟩ := ht.resized_grownCapacity hcap
    exact ⟨hsound, ht.live_congr hsound hcontents,
      hlen.ge.trans' t.capacity_le_grownCapacity, htomb.trans_le (Nat.zero_le _)⟩

/-! ### Every change -/

/-- The ways in which a change may lead from a table to the next. -/
inductive Passes (t : Table k P) : Stage k P → Prop where
  /-- A value was put into a slot, after room was made for it. -/
  | inserted {r : Traced (Table k P)} {v : Scalar k} {i : ℕ} (hroom : t.MakesRoom r)
      (hready : r.val.Ready v i) (p : P) :
      t.Passes ⟨true, false, r.rebuilds, r.val.occupy i v p⟩
  /-- Nothing was put in.  A request for room may be among this, if it changed nothing. -/
  | eased {t' : Table k P} (h : t.Eases t') (asked : Bool) : t.Passes ⟨false, asked, [], t'⟩
  /-- Room was asked for, and granted. -/
  | reserved [Payload P] {n : ℕ} {r : Traced (Table k P)} (h : t.reserve n = .ok r) :
      t.Passes ⟨false, true, r.rebuilds, r.val⟩

theorem Passes.easing (h : t.Eases t') : t.Passes (.easing t') := .eased h false

theorem passes_reserving [Payload P] (ht : t.Sound) (n : ℕ) :
    t.Passes (.reserving t (t.reserve n)) := by
  cases h : t.reserve n with
  | ok r => exact .reserved h
  | error e => exact .eased (.refl ht) true

/-- An absent value passes `entry` and is put into the slot that this answers with. -/
theorem exists_passes_adding (ht : t.Sound) (h : v.key ∉ t.keys) :
    ∃ r i, t.entry v = (fun t' => (t', Place.vacant i)) <$> r ∧
      ∀ p, t.Passes (.adding t v ((fun t' => t'.occupy i v p) <$> r)) := by
  obtain ⟨r, hr, hval, hrebuilds⟩ := exists_makesRoom ht v
  rcases ht.entry_cases v with ⟨i, w, q, -, hslot, hkey⟩ | ⟨t', i, hentry, hsound, -, hready⟩
  · exact absurd (mem_keys_iff.2 ⟨i, w, q, hslot, hkey⟩) h
  rw [hentry] at hval
  obtain rfl : t' = r.val := hval
  refine ⟨r, i, Traced.ext hentry (by rw [hrebuilds, Traced.rebuilds_map]), fun p => ?_⟩
  -- the value was not found before, and is found where it was put
  have hbefore := ht.find_eq_none_iff.2 h
  have hafter : (r.val.occupy i v p).find v = some i :=
    (hsound.occupy_of_ready hready p).find_eq_some_iff.2
      ⟨v, p, getElem?_occupy_self hready.free v p, rfl⟩
  rw [Stage.adding, Traced.val_map, Traced.rebuilds_map, hbefore, hafter]
  exact .inserted hr hready p

namespace Passes

theorem sound (h : t.Passes x) (ht : t.Sound) : x.table.Sound := by
  cases h with
  | inserted hroom hready p => exact (hroom.spec ht).1.occupy_of_ready hready p
  | eased h _ => exact h.sound
  | reserved h => exact (ht.reserve h).1

/-- No change makes a table smaller. -/
theorem capacity_le (h : t.Passes x) (ht : t.Sound) : t.capacity ≤ x.table.capacity := by
  cases h with
  | inserted hroom _ p =>
    rw [capacity_occupy]
    exact (hroom.spec ht).2.2.1
  | eased h _ => exact h.thinned.capacity.ge
  | reserved h => exact (ht.reserve h).2.2

theorem used_occupy_le (t : Table k P) (i : ℕ) (v : Scalar k) (p : P) :
    (t.occupy i v p).live + (t.occupy i v p).tombstones ≤ t.live + t.tombstones + 1 := by
  rw [live_occupy, occupy, tombstones_update]
  split <;> omega

/-- Slots come into use only with values that are put in, and with each of them one at most. -/
theorem used_le (h : t.Passes x) (ht : t.Sound) :
    x.table.live + x.table.tombstones ≤ t.live + t.tombstones + x.inserted.toNat := by
  cases h with
  | @inserted r v i hroom _ p =>
    obtain ⟨-, hlive, -, htomb⟩ := hroom.spec ht
    have hle := used_occupy_le r.val i v p
    show (r.val.occupy i v p).live + (r.val.occupy i v p).tombstones ≤ t.live + t.tombstones + 1
    omega
  | eased h _ => exact h.used
  | reserved h =>
    rcases reserve_eq_ok h with rfl | ⟨s, hs, rfl⟩
    · exact le_rfl
    · obtain ⟨hsound, hcontents, -, htomb⟩ := ht.resized_max hs
      show (t.resized _).live + (t.resized _).tombstones ≤ t.live + t.tombstones
      rw [ht.live_congr hsound hcontents, htomb]
      exact Nat.add_le_add_left (Nat.zero_le _) _

end Passes

/-! ### Many changes -/

/-- A table passes through a list of stages and comes to a table in the end. -/
inductive PassesAll : Table k P → List (Stage k P) → Table k P → Prop where
  /-- There is no change. -/
  | nil (t : Table k P) : PassesAll t [] t
  /-- There is a change, and others after it. -/
  | cons {t t' : Table k P} {x : Stage k P} {l : List (Stage k P)} (h : t.Passes x)
      (hrest : PassesAll x.table l t') : PassesAll t (x :: l) t'

namespace PassesAll

variable {l l' : List (Stage k P)}

theorem single (h : t.Passes x) : PassesAll t [x] x.table := .cons h (.nil _)

theorem append (h : PassesAll t l t') (h' : PassesAll t' l' t'') : PassesAll t (l ++ l') t'' := by
  induction h with
  | nil t => exact h'
  | cons hx _ ih => exact .cons hx (ih h')

/-- A list of stages may be cut at any of them. -/
theorem exists_split (h : PassesAll t (l ++ x :: l') t'') :
    ∃ t', PassesAll t l t' ∧ t'.Passes x ∧ PassesAll x.table l' t'' := by
  induction l generalizing t with
  | nil =>
    cases h with
    | cons hx hrest => exact ⟨t, .nil t, hx, hrest⟩
  | cons y l ih =>
    cases h with
    | cons hy hrest =>
      obtain ⟨t', hl, hsplit⟩ := ih hrest
      exact ⟨t', .cons hy hl, hsplit⟩

theorem sound (h : PassesAll t l t') (ht : t.Sound) : t'.Sound := by
  induction h with
  | nil t => exact ht
  | cons hx _ ih => exact ih (hx.sound ht)

end PassesAll
end Table
end Slotted
