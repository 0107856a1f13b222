import Mathlib.Tactic.Linarith
import Slotted.Proofs.Churn.History

/-!
# How large a table grows, and how often

A table grows when a value would take an empty slot over the load limit.  It is doubled only if the
live values, with the new one, fill more than half of the limit; else it is rebuilt at its length
and loses its tombstones.  In either case no more than about half of the limit is in use afterwards.
So the values held bound the length, however many came and went, and between two growths so many
values are put in as fill the other half.  And a table that fits into memory grows into one that
does, as long as fewer than `Table.roomLimit` of its slots are in use.

## Main definitions

* `Stage.peak` — the largest number of values held at any of a list of stages.
* `Table.WithinPeak` — the bound that a number of values sets to the number of slots.
* `Table.SinceGrown` — how many slots may be in use, by the values put in since a growth.

## Main results

* `Table.Passes.withinPeak`, `Table.PassesAll.withinPeak` — the bound is kept.
* `Table.Passes.grown` — when a table grows, and what it is like after that.
* `Table.Passes.sinceGrown`, `Table.PassesAll.sinceGrown` — slots come into use with values only.
* `Table.fitsMemory_grownCapacity`, `Table.PassesAll.fitsMemory` — a table grows within memory.
* `capacity_bounded_by_peak` — the length of a table is bounded by the values it held at most.
* `growth_amortised` — many values are put in between two growths.
* `growth_within_memory` — no growth asks for more than can be allocated before a great many values
  were put in.
-/

namespace Slotted

variable {k : Kind} {P : Type}

/-! ### The values held at most -/

namespace Stage

variable {x : Stage k P} {l l' : List (Stage k P)} {m : ℕ}

/-- The largest number of values held at any of a list of stages. -/
def peak (l : List (Stage k P)) : ℕ := (l.map fun x => x.table.live).foldr max 0

theorem peak_cons (x : Stage k P) (l : List (Stage k P)) :
    peak (x :: l) = max x.table.live (peak l) := rfl

theorem peak_le (h : ∀ x ∈ l, x.table.live ≤ m) : peak l ≤ m := by
  induction l with
  | nil => exact Nat.zero_le m
  | cons x l ih =>
    obtain ⟨hx, hl⟩ := List.forall_mem_cons.1 h
    exact max_le hx (ih hl)

end Stage

namespace Table

variable {t t' : Table k P} {x y : Stage k P} {l : List (Stage k P)} {m n L : ℕ}

/-- A table with so many slots is small, or held more than a quarter of what its load limit
allows. -/
def WithinPeak (k : Kind) (capacity peak : ℕ) : Prop :=
  capacity ≤ minSlots ∨ capacity * k.load.num < 4 * peak * k.load.den

theorem WithinPeak.mono (h : WithinPeak k n m) {m' : ℕ} (hle : m ≤ m') : WithinPeak k n m' :=
  h.imp_right fun h => h.trans_le (Nat.mul_le_mul_right _ (Nat.mul_le_mul_left 4 hle))

/-- A growing table is doubled only if the values it holds fill more than half of the limit. -/
theorem withinPeak_grownCapacity (h : WithinPeak k t.capacity m) (hlive : t.live + 1 ≤ m) :
    WithinPeak k t.grownCapacity m := by
  unfold grownCapacity
  split
  · next hmany =>
    refine Or.inr ?_
    calc t.capacity * 2 * k.load.num = 2 * (t.capacity * k.load.num) := by ring
      _ < 2 * ((t.live + 1) * k.load.den * 2) := Nat.mul_lt_mul_of_pos_left hmany (by decide)
      _ = 4 * (t.live + 1) * k.load.den := by ring
      _ ≤ 4 * m * k.load.den := Nat.mul_le_mul_right _ (Nat.mul_le_mul_left 4 hlive)
  · exact h

/-- A change that asks for no room keeps the bound that the values set. -/
theorem Passes.withinPeak (h : t.Passes x) (ht : t.Sound) (hasked : x.asked = false)
    (hbound : WithinPeak k t.capacity m) :
    WithinPeak k x.table.capacity (max m x.table.live) := by
  cases h with
  | @inserted r v i hmakes _ p =>
    have hlive := (hmakes.spec ht).2.1
    rw [capacity_occupy, live_occupy, hlive]
    cases hmakes with
    | ready _ => exact hbound.mono (le_max_left _ _)
    | first hcap => exact Or.inl (ht.resized_minSlots hcap).2.2.1.le
    | grown hcap _ =>
      show WithinPeak k (t.resized t.grownCapacity).capacity _
      rw [(ht.resized_grownCapacity hcap).2.2.1]
      exact withinPeak_grownCapacity (hbound.mono (le_max_left _ _)) (le_max_right _ _)
  | eased h _ =>
    rw [h.thinned.capacity]
    exact hbound.mono (le_max_left _ _)
  | reserved _ => exact absurd hasked (by simp)

/-- Many such changes keep it, too. -/
theorem PassesAll.withinPeak (h : t.PassesAll l t') (ht : t.Sound)
    (hasked : ∀ x ∈ l, x.asked = false) (hbound : WithinPeak k t.capacity m) :
    WithinPeak k t'.capacity (max m (Stage.peak l)) := by
  induction h generalizing m with
  | nil t => exact hbound.mono (le_max_left _ _)
  | @cons t t' x l hx _ ih =>
    obtain ⟨hfirst, hothers⟩ := List.forall_mem_cons.1 hasked
    rw [Stage.peak_cons, ← max_assoc]
    exact ih (hx.sound ht) hothers (hx.withinPeak ht hfirst hbound)

/-- A table never gets fewer slots. -/
theorem PassesAll.pairwise_capacity (h : t.PassesAll l t') (ht : t.Sound) :
    (t.capacity :: l.map fun x => x.table.capacity).Pairwise (· ≤ ·) := by
  induction h with
  | nil t => exact List.pairwise_singleton _ _
  | @cons t t' x l hx _ ih =>
    have hrest := ih (hx.sound ht)
    have hle := hx.capacity_le ht
    refine List.pairwise_cons.2 ⟨List.forall_mem_cons.2 ⟨hle, fun n hn => ?_⟩, hrest⟩
    exact hle.trans (List.rel_of_pairwise_cons hrest hn)

/-! ### Growing -/

/-- When a table grows, and what it is like after that: it holds one value more, at the length that
is due, and no tombstones. -/
structure GrownInto (t t' : Table k P) : Prop where
  /-- The table had slots. -/
  ne_zero : t.capacity ≠ 0
  /-- One more slot would have been too many. -/
  full : t.overLimit 1 = true
  /-- The number of slots. -/
  capacity : t'.capacity = t.grownCapacity
  /-- The number of values. -/
  live : t'.live = t.live + 1
  /-- There are no tombstones. -/
  tombstones : t'.tombstones = 0

/-- A table grows only for a value that is put in. -/
theorem Passes.grown (h : t.Passes x) (ht : t.Sound) (hx : x.grew = true) :
    x.inserted = true ∧ t.GrownInto x.table := by
  cases h with
  | @inserted r v i hmakes hready p =>
    cases hmakes with
    | ready _ => exact absurd hx (by simp [Stage.grew])
    | first hcap => exact absurd hx (by simp [Stage.grew, rebuild, hcap])
    | grown hcap hfull =>
      obtain ⟨hsound, hcontents, hlen, htomb⟩ := ht.resized_grownCapacity hcap
      refine ⟨rfl, hcap, hfull, (capacity_occupy ..).trans hlen,
        congrArg (· + 1) (ht.live_congr hsound hcontents), ?_⟩
      have hnone : t.grow.val.tombstones = 0 := htomb
      show (if t.grow.val.isTombstone i then t.grow.val.tombstones - 1
        else t.grow.val.tombstones) = 0
      split <;> omega
  | eased _ _ => exact absurd hx (by simp [Stage.grew])
  | reserved _ => exact absurd hx (by simp [Stage.grew])

/-- After a growth that left `L` slots and `m` values put in, that one included, half of the limit
may be in use and a slot for each of the values. -/
structure SinceGrown (L m : ℕ) (t : Table k P) : Prop where
  /-- There are as many slots as then, or more. -/
  capacity : L ≤ t.capacity
  /-- The slots in use. -/
  used : 2 * ((t.live + t.tombstones) * k.load.den) ≤ L * k.load.num + 2 * k.load.den * m

theorem GrownInto.sinceGrown (h : t.GrownInto t') (ht : t.Sound) :
    SinceGrown t'.capacity 1 t' := by
  refine ⟨le_rfl, ?_⟩
  rw [h.capacity, h.live, h.tombstones, grownCapacity]
  split
  · -- at the double, the other values fill half of the new limit at most
    have hlive := ht.live_mul_den_le
    linarith
  · next hfew =>
    -- at the same length, all values fill half of the limit at most
    linarith

/-- Slots come into use only with values that are put in. -/
theorem Passes.sinceGrown (h : t.Passes x) (ht : t.Sound) (hsince : SinceGrown L m t) :
    SinceGrown L (m + x.inserted.toNat) x.table := by
  refine ⟨hsince.capacity.trans (h.capacity_le ht), ?_⟩
  have hused := Nat.mul_le_mul_right k.load.den (h.used_le ht)
  have hbefore := hsince.used
  linarith

theorem PassesAll.sinceGrown (h : t.PassesAll l t') (ht : t.Sound) (hsince : SinceGrown L m t) :
    SinceGrown L (m + l.countP Stage.inserted) t' := by
  induction h generalizing m with
  | nil t => exact hsince
  | @cons t t' x l hx _ ih =>
    have hrest := ih (hx.sound ht) (hx.sinceGrown ht hsince)
    rwa [Stage.countP_inserted_cons, Nat.add_comm (l.countP _), ← Nat.add_assoc]

/-- The limit is made of whole numbers of values, twice over. -/
theorem two_mul_den_dvd (hL : IsTableLength L) : 2 * k.load.den ∣ L * k.load.num := by
  have hden : 2 * k.load.den ∣ 8 := by cases k <;> decide
  rcases hL with rfl | ⟨hmin, e, rfl⟩
  · rw [Nat.zero_mul]
    exact dvd_zero _
  · have hexp : 3 ≤ e := (Nat.pow_le_pow_iff_right (by decide : 1 < 2)).1 hmin
    exact dvd_mul_of_dvd_left (hden.trans (pow_dvd_pow 2 hexp)) _

/-- A table that is full again since it grew has taken many values in. -/
theorem SinceGrown.le_of_full (hsince : SinceGrown L m t) (hL : IsTableLength L)
    (hfull : t.overLimit 1 = true) : L * k.load.num ≤ 2 * k.load.den * m := by
  obtain ⟨q, hq⟩ := two_mul_den_dvd (k := k) hL
  -- whole numbers are compared, so that it does not matter that one more value comes
  have hlt : L * k.load.num < 2 * k.load.den * (m + 1) := by
    rw [overLimit, Load.exceededBy_iff] at hfull
    have hcap := Nat.mul_le_mul_right k.load.num hsince.capacity
    have hused := hsince.used
    linarith
  rw [hq] at hlt ⊢
  exact Nat.mul_le_mul_left _ (Nat.le_of_lt_succ (Nat.lt_of_mul_lt_mul_left hlt))

/-! ### Growing within memory -/

variable {w : ℕ}

/-- A table grows only when it is full, and is doubled at most. -/
theorem fitsMemory_grownCapacity (hw : w ≤ 8) (hfull : t.overLimit 1 = true)
    (hused : t.live + t.tombstones < roomLimit) : fitsMemory k w t.grownCapacity = true := by
  have hdouble : t.grownCapacity ≤ t.capacity * 2 := by
    unfold grownCapacity
    split <;> omega
  rw [overLimit, Load.exceededBy_iff] at hfull
  have hlt : t.capacity * k.load.num < roomLimit * k.load.den :=
    hfull.trans_le (Nat.mul_le_mul_right _ hused)
  refine fitsMemory_of_lt hw (hdouble.trans_lt ?_)
  -- half of the slots is within every load limit
  have hload : k.load.den ≤ 2 * k.load.num := by cases k <;> decide
  have hhalf : t.capacity * k.load.num < roomLimit * 2 * k.load.num :=
    calc t.capacity * k.load.num < roomLimit * k.load.den := hlt
      _ ≤ roomLimit * (2 * k.load.num) := Nat.mul_le_mul_left _ hload
      _ = roomLimit * 2 * k.load.num := (Nat.mul_assoc _ _ _).symm
  have hcap := Nat.lt_of_mul_lt_mul_right hhalf
  omega

/-- A change that asks for no room leads from a table that fits into memory to another. -/
theorem Passes.fitsMemory (h : t.Passes x) (ht : t.Sound) (hasked : x.asked = false) (hw : w ≤ 8)
    (hused : t.live + t.tombstones + x.inserted.toNat ≤ roomLimit)
    (hfits : fitsMemory k w t.capacity = true) : fitsMemory k w x.table.capacity = true := by
  cases h with
  | @inserted r v i hmakes _ p =>
    rw [capacity_occupy]
    cases hmakes with
    | ready _ => exact hfits
    | first hcap =>
      show Slotted.fitsMemory k w (t.resized minSlots).capacity = true
      rw [(ht.resized_minSlots hcap).2.2.1]
      exact fitsMemory_of_lt hw (by decide)
    | grown hcap hfull =>
      show Slotted.fitsMemory k w (t.resized t.grownCapacity).capacity = true
      rw [(ht.resized_grownCapacity hcap).2.2.1]
      exact fitsMemory_grownCapacity hw hfull hused
  | eased h _ =>
    rw [h.thinned.capacity]
    exact hfits
  | reserved _ => exact absurd hasked (by simp)

/-- So do many, as long as they do not put too many values in. -/
theorem PassesAll.fitsMemory (h : t.PassesAll l t') (ht : t.Sound)
    (hasked : ∀ x ∈ l, x.asked = false) (hw : w ≤ 8)
    (hused : t.live + t.tombstones + l.countP Stage.inserted ≤ roomLimit)
    (hfits : fitsMemory k w t.capacity = true) : fitsMemory k w t'.capacity = true := by
  induction h with
  | nil t => exact hfits
  | @cons t t' x l hx _ ih =>
    obtain ⟨hfirst, hothers⟩ := List.forall_mem_cons.1 hasked
    have hafter := hx.used_le ht
    rw [Stage.countP_inserted_cons] at hused
    exact ih (hx.sound ht) hothers (by omega) (hx.fitsMemory ht hfirst hw (by omega) hfits)

end Table

/-! ### Runs of operations -/

variable {t : Table k P} {l before between after : List (Stage k P)} {x y : Stage k P}

/-- **The capacity is bounded by the largest number of values held, not by how many came and went.**
A new set or bag for which no room is asked never gets fewer slots, and at any time it has eight at
most, or fewer than four times as many as its load limit would have for the largest number of values
held so far.  So as long as no more than a fixed number of values is held, the bound is fixed, too. -/
theorem capacity_bounded_by_peak (h : (Table.empty : Table k P).Undergoes l)
    (hasked : ∀ x ∈ l, x.asked = false) :
    (l.map fun x => x.table.capacity).Pairwise (· ≤ ·) ∧
    (∀ before x after, l = before ++ x :: after → x.table.capacity ≤ 8 ∨
      x.table.capacity * k.load.num < 4 * Stage.peak (before ++ [x]) * k.load.den) ∧
    ∀ m, (∀ x ∈ l, x.table.live ≤ m) → ∀ x ∈ l, x.table.capacity ≤ 8 ∨
      x.table.capacity * k.load.num < 4 * m * k.load.den := by
  obtain ⟨t', hpasses⟩ := h.passesAll
  have hpeak : ∀ before x after, l = before ++ x :: after →
      Table.WithinPeak k x.table.capacity (Stage.peak (before ++ [x])) := by
    rintro before x after rfl
    obtain ⟨t'', hbefore, hx, -⟩ := hpasses.exists_split
    have hnew : Table.WithinPeak k (Table.empty : Table k P).capacity 0 := Or.inl (Nat.zero_le 8)
    have hpeak := (hbefore.append (.single hx)).withinPeak h.sound (fun y hy => hasked y ?_) hnew
    · rwa [Nat.zero_max] at hpeak
    · rw [List.append_cons]
      exact List.mem_append_left _ hy
  refine ⟨(hpasses.pairwise_capacity h.sound).tail, hpeak, fun m hm x hx => ?_⟩
  obtain ⟨before, after, rfl⟩ := List.append_of_mem hx
  refine (hpeak before x after rfl).mono (Stage.peak_le fun y hy => hm y ?_)
  rw [List.append_cons]
  exact List.mem_append_left _ hy

/-- For example a set to which twenty values are added, each of them removed before the next: once its
table grows, and stays as large as it is. -/
theorem capacity_bounded_by_peak_churn :
    let byte : ℕ → Scalar .u8 := fun n => (Scalar.ofBits? .u8 (UInt64.ofNat n)).getD default
    let es : List (SetEdit .u8) :=
      (List.range 20).flatMap fun n => [.add (byte n), .remove (byte n)]
    let l := ScalarSet.empty.history es
    l.length = 40 ∧ (∀ x ∈ l, x.table.live ≤ 1) ∧ l.countP Stage.grew = 1 ∧
      ∀ x ∈ l, x.table.capacity ≤ 8 := by
  intro byte es l
  obtain ⟨hasked, hlength, hlive, hgrew⟩ : (∀ x ∈ l, x.asked = false) ∧ l.length = 40 ∧
      (∀ x ∈ l, x.table.live ≤ 1) ∧ l.countP Stage.grew = 1 := by
    simp only [l, es, byte]
    decide +kernel
  obtain ⟨-, -, hbound⟩ := capacity_bounded_by_peak (.set .empty es) hasked
  refine ⟨hlength, hlive, hgrew, fun x hx => ?_⟩
  rcases hbound 1 hlive x hx with hsmall | hfew
  · exact hsmall
  · have hload : Kind.u8.load = ⟨3, 4⟩ := rfl
    simp only [hload] at hfew
    omega

/-- **Growing is amortised.**  When a table grows for a value that is put in, and is left with `L`
slots, then before it grows again at least `L * num / (2 * den)` values are put in, that one included,
whatever else is done in between.  So there is another one besides the one it grew for, and no two
changes that follow each other make the table grow. -/
theorem growth_amortised (h : t.Undergoes (before ++ x :: (between ++ y :: after)))
    (hx : x.grew = true) (hy : y.grew = true) :
    x.inserted = true ∧
      x.table.capacity * k.load.num ≤ 2 * k.load.den * (x :: between).countP Stage.inserted ∧
      0 < between.countP Stage.inserted := by
  obtain ⟨t', hpasses⟩ := h.passesAll
  obtain ⟨t₁, hbefore, hpx, hrest⟩ := hpasses.exists_split
  obtain ⟨t₂, hbetween, hpy, -⟩ := hrest.exists_split
  have ht₁ := hbefore.sound h.sound
  have htx := hpx.sound ht₁
  obtain ⟨hinserted, hgrown⟩ := hpx.grown ht₁ hx
  obtain ⟨-, hfull⟩ := hpy.grown (hbetween.sound htx) hy
  have hmany := (hbetween.sinceGrown htx (hgrown.sinceGrown ht₁)).le_of_full htx.length hfull.full
  have hcount : (x :: between).countP Stage.inserted = 1 + between.countP Stage.inserted := by
    rw [Stage.countP_inserted_cons, hinserted, Bool.toNat_true, Nat.add_comm]
  refine ⟨hinserted, by rwa [hcount], Nat.pos_of_ne_zero fun hzero => ?_⟩
  -- one value alone cannot fill half of eight slots
  have hslots : x.table.capacity ≠ 0 := by
    have hle := t₁.capacity_le_grownCapacity
    have hcap := hgrown.capacity
    have hne := hgrown.ne_zero
    omega
  have hmin : 8 * k.load.num ≤ x.table.capacity * k.load.num :=
    Nat.mul_le_mul_right _ (htx.length.le_of_ne_zero hslots)
  have hload : k.load.den < 4 * k.load.num := by cases k <;> decide
  rw [hzero] at hmany
  omega

/-- For example a set to which thirteen values are added: it grows for the seventh, and not again
before the thirteenth. -/
theorem growth_amortised_doubling :
    let byte : ℕ → Scalar .u8 := fun n => (Scalar.ofBits? .u8 (UInt64.ofNat n)).getD default
    let es : List (SetEdit .u8) := [.extend ((List.range 13).map byte)]
    let l := ScalarSet.empty.history es
    ∃ before x between y after, l = before ++ x :: (between ++ y :: after) ∧ before.length = 6 ∧
      x.grew = true ∧ y.grew = true ∧ x.table.capacity = 16 ∧ y.table.capacity = 32 ∧
      16 * 3 ≤ 2 * 4 * (x :: between).countP Stage.inserted ∧
      (x :: between).countP Stage.inserted = 6 := by
  intro byte es l
  have hl : l = l.take 6 ++ l[6] :: ((l.drop 7).take 5 ++ l[12] :: l.drop 13) := rfl
  obtain ⟨hx, hy, hcap, hcap', hcount⟩ : l[6].grew = true ∧ l[12].grew = true ∧
      l[6].table.capacity = 16 ∧ l[12].table.capacity = 32 ∧
      (l[6] :: (l.drop 7).take 5).countP Stage.inserted = 6 := by
    simp only [l, es, byte]
    decide +kernel
  have hrun : ScalarSet.empty.table.Undergoes l := .set .empty es
  obtain ⟨-, hmany, -⟩ := growth_amortised (hl ▸ hrun) hx hy
  rw [hcap] at hmany
  exact ⟨_, _, _, _, _, hl, rfl, hx, hy, hcap, hcap', hmany, hcount⟩

/-- **Growing stays within memory.**  If the arrays of a set or bag are within the largest possible
allocation, then they are so at every later time, as long as the values put in are `2 ^ 58` at most,
together with the slots that were in use before.  This is about runs that ask for no room, since
what is asked for is checked when it is asked for. -/
theorem growth_within_memory {w : ℕ} (h : t.Undergoes l) (hasked : ∀ x ∈ l, x.asked = false)
    (hw : w ≤ 8) (hused : t.live + t.tombstones + l.countP Stage.inserted ≤ 2 ^ 58)
    (hfits : fitsMemory k w t.capacity = true) :
    ∀ x ∈ l, fitsMemory k w x.table.capacity = true := by
  obtain ⟨t', hpasses⟩ := h.passesAll
  intro x hx
  obtain ⟨before, after, rfl⟩ := List.append_of_mem hx
  obtain ⟨t'', hbefore, hpass, -⟩ := hpasses.exists_split
  rw [List.append_cons] at hasked hused
  rw [List.countP_append] at hused
  exact (hbefore.append (.single hpass)).fitsMemory h.sound
    (fun y hy => hasked y (List.mem_append_left _ hy)) hw
    (le_trans (Nat.add_le_add_left (Nat.le_add_right _ _) _) hused) hfits

end Slotted
