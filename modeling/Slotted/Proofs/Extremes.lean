import Slotted.Proofs.Equality
import Slotted.Proofs.Order

/-!
# The least and the greatest value

The least value of a container is found by a scan in slot order, which keeps a value until a later
one comes before it.  The order is a strict one, so no value of the container comes before the one
that is kept at the end, whatever the order of the slots.  It depends on the slots only which of the
values that the order does not tell apart is kept: where there are NaNs or zeros of both signs,
equal containers may answer differently, and nowhere else.  The greatest value is the least one of
the order read backwards.

## Main definitions

* `Scalar.ByOrder` — the order of a kind, and the same order backwards.
* `Scalar.Unbeaten` — a value before which no other of its sort comes.
* `Scalar.AnswersExtreme` — the answer for the values that a container holds.
* `Scalar.Comparable` — a container without NaNs and with at most one zero.
* `Scalar.AgreesOn` — two answers that are one, up to values that the order does not tell apart.

## Main results

* `Scalar.unbeaten_foldl` — what a scan keeps is unbeaten.
* `extremes_answered` — the answers are least and greatest values.
* `extremes_of_eqv` — the answers of equal containers.
* `extremes_of_eqv_unordered` — they may be different elements.
-/

namespace Slotted

variable {k : Kind}

namespace Scalar

variable {beats : Scalar k → Scalar k → Bool} {held : Scalar k → Bool} {isEmpty : Bool}
  {vs vs' : List (Scalar k)} {m v w x : Scalar k}

/-! ### The two directions of the order -/

/-- A comparison of values that is the order of their kind, upwards or downwards. -/
inductive ByOrder : (Scalar k → Scalar k → Bool) → Prop where
  /-- Lesser values come first. -/
  | upwards : ByOrder fun v w => v.lt w
  /-- Greater values come first. -/
  | downwards : ByOrder fun v w => w.lt v

namespace ByOrder

theorem irrefl (h : ByOrder beats) (v : Scalar k) : beats v v = false := by
  cases h with
  | upwards => exact lt_irrefl v
  | downwards => exact lt_irrefl v

theorem trans (h : ByOrder beats) (hvw : beats v w = true) (hwx : beats w x = true) :
    beats v x = true := by
  cases h with
  | upwards => exact lt_trans hvw hwx
  | downwards => exact lt_trans hwx hvw

theorem congr_left (h : ByOrder beats) (hkey : v.key = w.key) (x : Scalar k) :
    beats v x = beats w x := by
  cases h with
  | upwards => exact lt_congr_left hkey x
  | downwards => exact lt_congr_right hkey x

/-- Values of which neither comes first are tied. -/
theorem tied (h : ByOrder beats) (hvw : beats v w = false) (hwv : beats w v = false) :
    v.Tied w := by
  cases h with
  | upwards => exact tied_iff.2 ⟨hvw, hwv⟩
  | downwards => exact tied_iff.2 ⟨hwv, hvw⟩

end ByOrder

/-! ### A scan for a value that comes first -/

/-- A value with a property, before which no value with that property comes. -/
structure Unbeaten (beats : Scalar k → Scalar k → Bool) (P : Scalar k → Prop) (m : Scalar k) :
    Prop where
  /-- It has the property. -/
  holds : P m
  /-- Nothing that has it comes before the value. -/
  not_beaten : ∀ v, P v → beats v m = false

/-- A scan keeps the value it starts with, or one that comes before that. -/
theorem eq_or_beats_foldl (h : ByOrder beats) (vs : List (Scalar k)) (v : Scalar k) :
    vs.foldl (fun best w => if beats w best then w else best) v = v ∨
      beats (vs.foldl (fun best w => if beats w best then w else best) v) v = true := by
  induction vs generalizing v with
  | nil => exact Or.inl rfl
  | cons w vs ih =>
    rw [List.foldl_cons]
    split
    · next hw =>
      rcases ih w with heq | hbeats
      · rw [heq]
        exact Or.inr hw
      · exact Or.inr (h.trans hbeats hw)
    · exact ih v

/-- **What a scan keeps is unbeaten** by all that it has come to, by the value it starts with, and
by those that it has dropped. -/
theorem unbeaten_foldl (h : ByOrder beats) (vs : List (Scalar k)) (v : Scalar k) :
    Unbeaten beats (· ∈ v :: vs)
      (vs.foldl (fun best w => if beats w best then w else best) v) := by
  induction vs generalizing v with
  | nil => exact ⟨List.mem_cons_self, List.forall_mem_singleton.2 (h.irrefl v)⟩
  | cons w vs ih =>
    rw [List.foldl_cons]
    split
    · next hw =>
      -- what comes before the value kept comes before the one it was kept for
      obtain ⟨hmem, hnone⟩ := ih w
      refine ⟨List.mem_cons_of_mem v hmem, List.forall_mem_cons.2 ⟨?_, hnone⟩⟩
      apply Bool.eq_false_of_not_eq_true
      intro hv
      apply Bool.eq_false_iff.1 (hnone w List.mem_cons_self)
      exact h.trans hw hv
    · next hw =>
      obtain ⟨hmem, hnone⟩ := ih v
      obtain ⟨hv, hvs⟩ := List.forall_mem_cons.1 hnone
      refine ⟨?_, List.forall_mem_cons.2 ⟨hv, List.forall_mem_cons.2 ⟨?_, hvs⟩⟩⟩
      · rcases List.mem_cons.1 hmem with heq | hmem
        · rw [heq]
          exact List.mem_cons_self
        · exact List.mem_cons_of_mem v (List.mem_cons_of_mem w hmem)
      · apply Bool.eq_false_of_not_eq_true
        intro hbeats
        apply hw
        rcases eq_or_beats_foldl h vs v with heq | hkept
        · rwa [heq] at hbeats
        · exact h.trans hbeats hkept

/-! ### The answer of a container -/

/-- The values of a container are listed: it holds those with the key of a value of the list. -/
def Lists (held : Scalar k → Bool) (vs : List (Scalar k)) : Prop :=
  ∀ v, held v = true ↔ v.key ∈ vs.map key

theorem Lists.held_of_mem (h : Lists held vs) (hv : v ∈ vs) : held v = true :=
  (h v).2 (List.mem_map_of_mem hv)

theorem Lists.unbeaten (h : Lists held vs) (hbeats : ByOrder beats)
    (hm : Unbeaten beats (· ∈ vs) m) : Unbeaten beats (held · = true) m where
  holds := h.held_of_mem hm.holds
  not_beaten v hv := by
    obtain ⟨w, hw, hkey⟩ := List.mem_map.1 ((h v).1 hv)
    rw [← hbeats.congr_left hkey m]
    exact hm.not_beaten w hw

theorem Lists.eq_nil_iff (h : Lists held vs) : vs = [] ↔ ∀ v, held v = false := by
  rw [List.eq_nil_iff_forall_not_mem]
  constructor
  · intro hnone v
    apply Bool.eq_false_of_not_eq_true
    intro hv
    obtain ⟨w, hw, -⟩ := List.mem_map.1 ((h v).1 hv)
    exact hnone w hw
  · intro hnone v hv
    exact Bool.eq_false_iff.1 (hnone v) (h.held_of_mem hv)

/-- A scan of what is held finds nothing if that is nothing, and else an unbeaten value. -/
theorem Lists.extremum?_cases (h : Lists held vs) (hbeats : ByOrder beats) :
    ((∀ v, held v = false) ∧ extremum? beats vs = none) ∨
      ∃ m, Unbeaten beats (held · = true) m ∧ extremum? beats vs = some m := by
  cases vs with
  | nil => exact Or.inl ⟨h.eq_nil_iff.1 rfl, rfl⟩
  | cons v vs => exact Or.inr ⟨_, h.unbeaten hbeats (unbeaten_foldl hbeats vs v), rfl⟩

/-- All that is held can be compared: it has no NaN in it, and no two zeros. -/
structure Comparable (held : Scalar k → Bool) : Prop where
  /-- There is no NaN. -/
  isNaN_eq_false : ∀ v, held v = true → v.isNaN = false
  /-- There is at most one zero. -/
  zero_unique : k.isFloat = true → ∀ v w, held v = true → held w = true →
    v.magnitude = 0 → w.magnitude = 0 → v.key = w.key

theorem comparable_of_not_isFloat (hk : k.isFloat = false) (held : Scalar k → Bool) :
    Comparable held where
  isNaN_eq_false v _ := Scalar.isNaN_eq_false hk v
  zero_unique hfloat := absurd (hk.symm.trans hfloat) Bool.false_ne_true

theorem Comparable.key_eq_of_tied (h : Comparable held) (hv : held v = true) (hw : held w = true)
    (htied : v.Tied w) : v.key = w.key := by
  rcases htied with hkey | hnan | hnan | ⟨hfloat, hv0, hw0⟩
  · exact hkey
  · exact absurd ((h.isNaN_eq_false v hv).symm.trans hnan) Bool.false_ne_true
  · exact absurd ((h.isNaN_eq_false w hw).symm.trans hnan) Bool.false_ne_true
  · exact h.zero_unique hfloat v w hv hw hv0 hw0

/-- What is answered when a container is asked for the value that comes first. -/
structure AnswersExtreme (beats : Scalar k → Scalar k → Bool) (isEmpty : Bool)
    (held : Scalar k → Bool) (answer : Except Error (Scalar k)) : Prop where
  /-- A container is empty when it holds nothing. -/
  isEmpty_iff : isEmpty = true ↔ ∀ v, held v = false
  /-- There is no answer just for an empty one. -/
  refused_iff : answer = .error .noSuchElement ↔ isEmpty = true
  /-- For others it is a value held before which no other comes. -/
  answered : isEmpty = false → ∃ m, answer = .ok m ∧ Unbeaten beats (held · = true) m
  /-- Among integers and characters it comes before all others. -/
  first : k.isFloat = false → ∀ m, answer = .ok m → ∀ v, held v = true → v ≠ m → beats m v = true

theorem Lists.answersExtreme (h : Lists held vs) (hempty : isEmpty = true ↔ vs = [])
    (hbeats : ByOrder beats) :
    AnswersExtreme beats isEmpty held
      ((extremum? beats vs).elim (.error .noSuchElement) .ok) := by
  have hiff := hempty.trans h.eq_nil_iff
  rcases h.extremum?_cases hbeats with ⟨hnone, hscan⟩ | ⟨m, hm, hscan⟩ <;> rw [hscan]
  · have htrue : isEmpty = true := hiff.2 hnone
    refine ⟨hiff, iff_of_true rfl htrue, fun hfalse => ?_, fun _ m hok => nomatch hok⟩
    exact absurd (hfalse.symm.trans htrue) Bool.false_ne_true
  · have hfalse : ¬ isEmpty = true := fun htrue =>
      absurd ((hiff.1 htrue m).symm.trans hm.holds) Bool.false_ne_true
    refine ⟨hiff, iff_of_false (fun herror => nomatch herror) hfalse, fun _ => ⟨m, rfl, hm⟩, ?_⟩
    intro hk m' hok v hv hvm
    cases hok
    apply Bool.eq_true_of_not_eq_false
    intro hmv
    -- a value that does not come after is tied, and so the same
    have htied := hbeats.tied (hm.not_beaten v hv) hmv
    exact hvm (key_injective hk
      ((comparable_of_not_isFloat hk held).key_eq_of_tied hv hm.holds htied))

/-- Two answers that are both errors, or both values in some relation. -/
inductive AgreeUpTo (rel : Scalar k → Scalar k → Prop) :
    Except Error (Scalar k) → Except Error (Scalar k) → Prop where
  /-- There is no value. -/
  | refused : AgreeUpTo rel (.error .noSuchElement) (.error .noSuchElement)
  /-- The values are related. -/
  | answered {v w : Scalar k} : rel v w → AgreeUpTo rel (.ok v) (.ok w)

/-- Two answers for what a container holds, which may come from different scans of it. -/
structure AgreesOn (held : Scalar k → Bool) (answer answer' : Except Error (Scalar k)) : Prop where
  /-- They are both errors, or values held that are tied. -/
  tied : AgreeUpTo (fun v w => held v = true ∧ held w = true ∧ v.Tied w) answer answer'
  /-- They are both errors or one element, if all that is held can be compared. -/
  same : Comparable held → AgreeUpTo (fun v w => v.key = w.key) answer answer'

/-- Scans of lists of the same values agree. -/
theorem Lists.agreesOn (h : Lists held vs) (h' : Lists held vs') (hbeats : ByOrder beats) :
    AgreesOn held ((extremum? beats vs).elim (.error .noSuchElement) .ok)
      ((extremum? beats vs').elim (.error .noSuchElement) .ok) := by
  rcases h.extremum?_cases hbeats with ⟨hnone, hscan⟩ | ⟨m, hm, hscan⟩ <;>
    rcases h'.extremum?_cases hbeats with ⟨hnone', hscan'⟩ | ⟨m', hm', hscan'⟩ <;>
    rw [hscan, hscan']
  · exact ⟨.refused, fun _ => .refused⟩
  · exact absurd ((hnone m').symm.trans hm'.holds) Bool.false_ne_true
  · exact absurd ((hnone' m).symm.trans hm.holds) Bool.false_ne_true
  · have htied := hbeats.tied (hm'.not_beaten m hm.holds) (hm.not_beaten m' hm'.holds)
    refine ⟨.answered ⟨hm.holds, hm'.holds, htied⟩, fun hheld => .answered ?_⟩
    exact hheld.key_eq_of_tied hm.holds hm'.holds htied

end Scalar

/-! ### Sets and bags -/

open Scalar

namespace ScalarSet

variable {s : ScalarSet k}

theorem lists_toList (hs : s.table.Sound) : Lists s.contains s.toList :=
  contains_iff_mem hs

theorem isEmpty_iff (hs : s.table.Sound) : s.isEmpty = true ↔ s.toList = [] := by
  unfold isEmpty
  rw [beq_iff_eq, ← length_toList hs, List.length_eq_zero_iff]

end ScalarSet

namespace ScalarBag

variable {b : ScalarBag k}

theorem lists_distinct (hb : b.Sound) : Lists b.contains (b.distinct.map fun c => c.1) := by
  intro v
  unfold contains
  rw [Option.isSome_iff_ne_none, ne_eq, hb.table.find_eq_none_iff, not_not,
    ← mem_map_key_distinct_iff, List.map_map]
  rfl

theorem isEmpty_iff (hb : b.Sound) : b.isEmpty = true ↔ (b.distinct.map fun c => c.1) = [] := by
  unfold isEmpty
  rw [beq_iff_eq, hb.total_eq_sum, List.sum_eq_zero_iff, List.map_eq_nil_iff,
    List.eq_nil_iff_forall_not_mem]
  constructor
  · intro hzero c hc
    have hentry : (c.1.key, c.2) ∈ keyed b.distinct :=
      List.mem_map_of_mem (f := fun e : Scalar k × ℕ => (e.1.key, e.2)) hc
    exact hb.proper_keyed.count_ne _ hentry (hzero _ (List.mem_map_of_mem hentry))
  · intro hnone n hn
    rw [map_snd_keyed, List.mem_map] at hn
    obtain ⟨c, hc, -⟩ := hn
    exact absurd hc (hnone c)

/-- Equal bags contain the same values. -/
theorem contains_eq_of_eqv {b' : ScalarBag k} (hb : b.Sound) (hb' : b'.Sound)
    (h : b.eqv b' = true) : b.contains = b'.contains := by
  have hkeys := ((eqv_iff_perm hb hb').1 h).map Prod.fst
  rw [map_fst_keyed, map_fst_keyed] at hkeys
  funext v
  rw [Bool.eq_iff_iff, lists_distinct hb v, lists_distinct hb' v, List.map_map, List.map_map]
  exact hkeys.mem_iff

end ScalarBag

/-- **The answers are least and greatest values.**  The order of a kind is that of the integers, of
the code points, and of the numbers that floats stand for, whatever their bit patterns.  Asked for
the least value, a set or a bag that operations lead to refuses just if it is empty.  Any other
answers with a value it holds and before which no value it holds comes, and which comes before all
others if they are integers or characters; and in the same way for the greatest. -/
theorem extremes_answered (k : Kind) :
    (∀ v w : Scalar k, k.isFloat = false → (v.lt w = true ↔ v.toInt < w.toInt)) ∧
    (∀ v w : Scalar k, v.isNaN = false → w.isNaN = false →
      (v.lt w = true ↔ v.number < w.number)) ∧
    (∀ s : ScalarSet k, s.Reachable →
      AnswersExtreme (fun v w => v.lt w) s.isEmpty s.contains s.min ∧
      AnswersExtreme (fun v w => w.lt v) s.isEmpty s.contains s.max) ∧
    (∀ b : ScalarBag k, b.Reachable →
      AnswersExtreme (fun v w => v.lt w) b.isEmpty b.contains b.min ∧
      AnswersExtreme (fun v w => w.lt v) b.isEmpty b.contains b.max) := by
  refine ⟨fun v w hk => ?_, fun v w hv hw => lt_iff_number_lt hv hw, fun s hs => ?_,
    fun b hb => ?_⟩
  · rw [lt_iff_number_lt (isNaN_eq_false hk v) (isNaN_eq_false hk w), number_eq_toInt hk,
      number_eq_toInt hk, Int.cast_lt]
  · have hlists := ScalarSet.lists_toList hs.sound
    have hempty := ScalarSet.isEmpty_iff hs.sound
    exact ⟨hlists.answersExtreme hempty .upwards, hlists.answersExtreme hempty .downwards⟩
  · have hlists := ScalarBag.lists_distinct hb.sound
    have hempty := ScalarBag.isEmpty_iff hb.sound
    exact ⟨hlists.answersExtreme hempty .upwards, hlists.answersExtreme hempty .downwards⟩

/-- For example a set of signed integers, whose patterns are in another order, and a bag of floats
that has a tombstone. -/
theorem extremes_answered_negative :
    let one : Scalar .i8 := ⟨1, by decide⟩
    let minusOne : Scalar .i8 := ⟨255, by decide⟩
    let s := (ScalarSet.empty.extend [one, minusOne]).val
    let minusHalf : Scalar .f64 := ⟨0xbfe0000000000000, by decide⟩
    let minusTwo : Scalar .f64 := ⟨0xc000000000000000, by decide⟩
    let three : Scalar .f64 := ⟨0x4008000000000000, by decide⟩
    let b := ((ScalarBag.empty.extend [minusHalf, three, minusTwo]).val.2.remove three).2
    Kind.i8.isFloat = false ∧ minusOne.lt one = true ∧ minusOne.toInt < one.toInt ∧
      minusHalf.isNaN = false ∧ minusTwo.isNaN = false ∧ minusTwo.number < minusHalf.number ∧
      s.Reachable ∧ s.min = .ok minusOne ∧
      AnswersExtreme (fun v w => v.lt w) s.isEmpty s.contains s.min ∧
      b.Reachable ∧ b.table.tombstones = 1 ∧ b.max = .ok minusHalf ∧
      AnswersExtreme (fun v w => w.lt v) b.isEmpty b.contains b.max := by
  intro one minusOne s minusHalf minusTwo three b
  obtain ⟨hints, -, hsets, -⟩ := extremes_answered .i8
  obtain ⟨-, hfloats, -, hbags⟩ := extremes_answered .f64
  have hs : s.Reachable := .extend _ .empty
  have hb : b.Reachable := .remove _ (.extend _ .empty)
  have hlt : minusOne.lt one = true := by decide +kernel
  obtain ⟨hhalf, htwo, hlt'⟩ :
      minusHalf.isNaN = false ∧ minusTwo.isNaN = false ∧ minusTwo.lt minusHalf = true := by
    decide +kernel
  obtain ⟨hmin, htomb, hmax⟩ :
      s.min = .ok minusOne ∧ b.table.tombstones = 1 ∧ b.max = .ok minusHalf := by
    simp only [s, b, one, minusOne, minusHalf, minusTwo, three]
    decide +kernel
  exact ⟨rfl, hlt, (hints _ _ rfl).1 hlt, hhalf, htwo, (hfloats _ _ htwo hhalf).1 hlt', hs, hmin,
    (hsets s hs).1, hb, htomb, hmax, (hbags b hb).2⟩

/-- **The answers of equal containers.**  Equal sets, and equal bags, that operations lead to are
both refused, or answer with values that they hold and that are one element, unless one of them is a
NaN or both are zeros.  So they answer with one element if they hold neither a NaN nor two zeros, as
all those of integers and characters do. -/
theorem extremes_of_eqv (k : Kind) :
    (k.isFloat = false → ∀ held : Scalar k → Bool, Comparable held) ∧
    (∀ s s' : ScalarSet k, s.Reachable → s'.Reachable → s.eqv s' = true →
      AgreesOn s.contains s.min s'.min ∧ AgreesOn s.contains s.max s'.max) ∧
    (∀ b b' : ScalarBag k, b.Reachable → b'.Reachable → b.eqv b' = true →
      AgreesOn b.contains b.min b'.min ∧ AgreesOn b.contains b.max b'.max) := by
  refine ⟨comparable_of_not_isFloat, fun s s' hs hs' heqv => ?_, fun b b' hb hb' heqv => ?_⟩
  · have hlists := ScalarSet.lists_toList hs.sound
    have hlists' : Lists s.contains s'.toList := by
      rw [funext ((ScalarSet.eqv_iff_contains hs.sound hs'.sound).1 heqv)]
      exact ScalarSet.lists_toList hs'.sound
    exact ⟨hlists.agreesOn hlists' .upwards, hlists.agreesOn hlists' .downwards⟩
  · have hlists := ScalarBag.lists_distinct hb.sound
    have hlists' : Lists b.contains (b'.distinct.map fun c => c.1) := by
      rw [ScalarBag.contains_eq_of_eqv hb.sound hb'.sound heqv]
      exact ScalarBag.lists_distinct hb'.sound
    exact ⟨hlists.agreesOn hlists' .upwards, hlists.agreesOn hlists' .downwards⟩

/-- For example two sets of characters, of which the second has had a third element, and two bags of
floats. -/
theorem extremes_of_eqv_tombstone :
    let a : Scalar .char := ⟨97, by decide⟩
    let b : Scalar .char := ⟨98, by decide⟩
    let c : Scalar .char := ⟨99, by decide⟩
    let s := (ScalarSet.empty.extend [a, b]).val
    let s' := ((ScalarSet.empty.extend [c, b, a]).val.remove c).2
    let minusHalf : Scalar .f64 := ⟨0xbfe0000000000000, by decide⟩
    let minusOne : Scalar .f64 := ⟨0xbff0000000000000, by decide⟩
    let bag := (ScalarBag.empty.extend [minusHalf, minusOne]).val.2
    let bag' := (ScalarBag.empty.extend [minusOne, minusHalf]).val.2
    Kind.char.isFloat = false ∧ s.Reachable ∧ s'.Reachable ∧ s'.table.tombstones = 1 ∧
      s.eqv s' = true ∧ AgreeUpTo (fun v w => v.key = w.key) s.max s'.max ∧
      bag.Reachable ∧ bag'.Reachable ∧ bag.eqv bag' = true ∧
      AgreesOn bag.contains bag.min bag'.min := by
  intro a b c s s' minusHalf minusOne bag bag'
  have hs : s.Reachable := .extend _ .empty
  have hs' : s'.Reachable := .remove _ (.extend _ .empty)
  have hb : bag.Reachable := .extend _ .empty
  have hb' : bag'.Reachable := .extend _ .empty
  obtain ⟨heqv, htomb, heqv'⟩ :
      s.eqv s' = true ∧ s'.table.tombstones = 1 ∧ bag.eqv bag' = true := by
    simp only [s, s', bag, bag', a, b, c, minusHalf, minusOne]
    decide +kernel
  obtain ⟨hcomparable, hsets, -⟩ := extremes_of_eqv .char
  obtain ⟨-, -, hbags⟩ := extremes_of_eqv .f64
  exact ⟨rfl, hs, hs', htomb, heqv, (hsets s s' hs hs' heqv).2.same (hcomparable rfl _),
    hb, hb', heqv', (hbags bag bag' hb hb' heqv').1⟩

/-- Equal sets of floats may answer with different elements: with a NaN or with a number, by which
came first to the one slot that both are sought at; and with the one or the other zero, if the slots
they are sought at were occupied when they were added. -/
theorem extremes_of_eqv_unordered :
    let nan : Scalar .f64 := ⟨0x7ff8000000000000, by decide⟩
    let half : Scalar .f64 := ⟨0x3fe0000000000000, by decide⟩
    let zero : Scalar .f64 := ⟨0, by decide⟩
    let minusZero : Scalar .f64 := ⟨0x8000000000000000, by decide⟩
    let two : Scalar .f64 := ⟨0x4000000000000000, by decide⟩
    let three : Scalar .f64 := ⟨0x4008000000000000, by decide⟩
    let s := (ScalarSet.empty.extend [nan, half]).val
    let s' := (ScalarSet.empty.extend [half, nan]).val
    let filled := (ScalarSet.empty.extend [two, three, minusZero, zero]).val
    let z := ((filled.remove two).2.remove three).2
    let z' := (ScalarSet.empty.extend [zero, minusZero]).val
    (s.Reachable ∧ s'.Reachable ∧ s.eqv s' = true ∧
      s.min = .ok nan ∧ s'.min = .ok half ∧ nan.key ≠ half.key) ∧
    (z.Reachable ∧ z'.Reachable ∧ z.eqv z' = true ∧
      z.min = .ok minusZero ∧ z'.min = .ok zero ∧ minusZero.key ≠ zero.key) := by
  intro nan half zero minusZero two three s s' filled z z'
  have hz : z.Reachable := .remove _ (.remove _ (.extend _ .empty))
  refine ⟨⟨.extend _ .empty, .extend _ .empty, ?_⟩, ⟨hz, .extend _ .empty, ?_⟩⟩
  · simp only [s, s', nan, half]
    decide +kernel
  · simp only [z, z', filled, zero, minusZero, two, three]
    decide +kernel

end Slotted
