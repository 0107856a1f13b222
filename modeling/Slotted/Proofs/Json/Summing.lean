import Slotted.Proofs.Lockstep.Counts
import Slotted.Proofs.Traversal.Exact

/-!
# What listed values and counts amount to

A document may list a value again, or with no occurrences.  A set holds each of its values once, and
a bag as often as all its counts say together, if there is room for them all.  If there is not, the
first pair that is too much is where it ends: those before it went through, and what comes after it
is not looked at.

An addition for which there is no room aborts.  What comes from outside must not bring that about,
so the room is looked at before each addition.  To say that this is enough, the additions are
followed once more with every abort in view.

## Main definitions

* `Counted.sumOf` — all the counts of a value, together.
* `Counted.absorbOrAbort` — what adding a list comes to, if an addition may abort it.
* `Collection.Listed`, `Counted.Summed` — a set of listed values, and a bag of values with counts.
* `Counted.SumsUp` — what a type of bags makes of all lists of values with counts.

## Main results

* `SetGrowth.exists_listed` — a set of any list of values.
* `BagGrowth.absorbOrAbort_eq` — no addition aborts.
* `CountingLaws.sumsUp` — a bag of any list of values with counts, or the first that is too much.
* `Counted.SumsUp.val_bagOfDocument_overflow` — a document whose counts are too much.
* `listings_sum_up` — all containers.
-/

namespace Slotted

open Collection Counted Json

variable {C α κ : Type} [DecidableEq κ] {sound : C → Prop} {key : α → κ}

/-! ### Sets -/

/-- The set holds the values of a list and nothing else, each once however often it is listed. -/
structure Collection.Listed [Collection C α] (key : α → κ) (as : List α) (c : C) : Prop where
  /-- What is contained is what is listed. -/
  contains_eq : ∀ a, contains c a = decide (key a ∈ as.map key)
  /-- The size is the number of values listed. -/
  size_eq : size c = (as.map key).dedup.length
  /-- The elements are all there, once each. -/
  inRuns : InRuns key (fun a => (contains c a).toNat) (toList c) ((toList c).map fun a => (a, 1))

/-- A set can be made of any list of values. -/
theorem SetGrowth.exists_listed [Collection C α] (growth : SetGrowth C sound key)
    (laws : SetLaws C sound key) (as : List α) :
    ∃ c : C, (extend empty as).val = (.ok (), c) ∧ Listed key as c := by
  obtain ⟨c, hval, hc, hcontains⟩ := growth.exists_extend growth.sound_empty as
  have hlisted : ∀ a, contains c a = decide (key a ∈ as.map key) := by
    intro a
    rw [hcontains, growth.contains_empty, Bool.or_false]
  have hmem : ∀ a, key a ∈ (toList c).map key ↔ key a ∈ as.map key := by
    intro a
    rw [← laws.contains_iff hc, hlisted, decide_eq_true_iff]
  have hperm : ((toList c).map key).Perm (as.map key).dedup := by
    refine (List.perm_ext_iff_of_nodup (laws.nodup hc) (List.nodup_dedup _)).2 fun x => ?_
    rw [List.mem_dedup]
    constructor
    · intro hx
      obtain ⟨a, -, rfl⟩ := List.mem_map.1 hx
      exact (hmem a).1 hx
    · intro hx
      obtain ⟨a, -, rfl⟩ := List.mem_map.1 hx
      exact (hmem a).2 hx
  refine ⟨c, hval, hlisted, ?_, laws.inRuns hc⟩
  rw [← laws.length_toList hc, ← hperm.length_eq, List.length_map]

/-! ### Bags -/

namespace Counted

/-- All the counts that a list has for an element, together. -/
def sumOf (key : α → κ) (es : List (α × ℕ)) (a : α) : ℕ :=
  (es.map fun e => if key a = key e.1 then e.2 else 0).sum

variable [Counted C α]

/-- Adds values with counts as `absorb` does.  An addition that aborts is the end of it all. -/
def absorbOrAbort (c : C) : List (α × ℕ) → Traced (Except Abort (Except Fault C))
  | [] => pure (.ok (.ok c))
  | (a, n) :: rest =>
    match addCount? (size c) n with
    | none => pure (.ok (.error .countOverflow))
    | some _ => do
      match ← addOccurrences c a n with
      | (.ok _, c) => absorbOrAbort c rest
      | (.error abort, _) => pure (.error abort)

/-- The bag holds each value of a list as often as the counts beside it say together. -/
structure Summed (key : α → κ) (es : List (α × ℕ)) (c : C) : Prop where
  /-- The counts of each value are added up. -/
  occurrencesOf_eq : ∀ a, occurrencesOf c a = sumOf key es a
  /-- A value whose counts are all zero is not there. -/
  contains_eq : ∀ a, contains c a = decide (sumOf key es a ≠ 0)
  /-- The size is the sum of all counts. -/
  size_eq : size c = (es.map Prod.snd).sum
  /-- The occurrences are all there. -/
  inRuns : InRuns key (sumOf key es) (toList c) (distinct c)

/-- What a type of bags makes of lists of values with counts. -/
structure SumsUp (C : Type) {α κ : Type} [Counted C α] [DecidableEq κ] (key : α → κ) : Prop where
  /-- If there is room for all counts, there is a bag with their sums. -/
  exists_summed : ∀ es : List (α × ℕ), (es.map Prod.snd).sum ≤ maxWord →
    ∃ c : C, (ofEntries es).val = .ok c ∧ Summed key es c
  /-- If there is not, there is a first pair that is too much.  It is the end, whatever follows. -/
  exists_overflow : ∀ es : List (α × ℕ), maxWord < (es.map Prod.snd).sum →
    ∃ earlier a n later, es = earlier ++ (a, n) :: later ∧
      (∃ c : C, (ofEntries earlier).val = .ok c ∧ Summed key earlier c ∧ maxWord < size c + n) ∧
      ∀ others, (ofEntries (earlier ++ (a, n) :: others) : Traced (Except Fault C))
        = (fun _ => .error .countOverflow) <$> (ofEntries earlier : Traced (Except Fault C))
  /-- No addition aborts. -/
  absorbOrAbort_eq : ∀ es : List (α × ℕ),
    absorbOrAbort (empty : C) es = Except.ok <$> ofEntries es

theorem absorb_cons_of_overflow {c : C} {a : α} {n : ℕ} (h : maxWord < size c + n)
    (es : List (α × ℕ)) : absorb c ((a, n) :: es) = pure (.error .countOverflow) := by
  rw [absorb, addCount?, if_neg (Nat.not_le.2 h)]

/-- Adding a list in two parts. -/
theorem absorb_append (c : C) (es es' : List (α × ℕ)) :
    absorb c (es ++ es') = absorb c es >>= fun r =>
      match r with
      | .ok c => absorb c es'
      | .error f => pure (.error f) := by
  induction es generalizing c with
  | nil => exact (pure_bind _ _).symm
  | cons e es ih =>
    obtain ⟨a, n⟩ := e
    rw [List.cons_append, absorb, absorb]
    split
    · exact (pure_bind _ _).symm
    · rw [bind_assoc]
      exact bind_congr fun r => ih r.2

/-- A list of counts that is too much, is so from some count on. -/
theorem exists_overflowing {es : List (α × ℕ)} {m : ℕ} (hm : m ≤ maxWord)
    (h : maxWord < m + (es.map Prod.snd).sum) :
    ∃ earlier a n later, es = earlier ++ (a, n) :: later ∧
      m + (earlier.map Prod.snd).sum ≤ maxWord ∧ maxWord < m + (earlier.map Prod.snd).sum + n := by
  induction es generalizing m with
  | nil => exact absurd h (Nat.not_lt.2 hm)
  | cons e es ih =>
    obtain ⟨a, n⟩ := e
    rw [List.map_cons, List.sum_cons] at h
    rcases Nat.lt_or_ge maxWord (m + n) with hover | hle
    · exact ⟨[], a, n, es, rfl, hm, hover⟩
    · obtain ⟨earlier, b, l, later, rfl, hfits, hover⟩ := ih hle (by omega)
      refine ⟨(a, n) :: earlier, b, l, later, rfl, ?_, ?_⟩
      · rw [List.map_cons, List.sum_cons]
        omega
      · rw [List.map_cons, List.sum_cons]
        omega

end Counted

/-- Where room is looked at before each addition, none aborts. -/
theorem BagGrowth.absorbOrAbort_eq [Counted C α] (growth : BagGrowth C sound key) {c : C}
    (hc : sound c) (es : List (α × ℕ)) : absorbOrAbort c es = Except.ok <$> absorb c es := by
  induction es generalizing c with
  | nil => rfl
  | cons e es ih =>
    obtain ⟨a, n⟩ := e
    rcases Nat.lt_or_ge maxWord (size c + n) with hover | hle
    · rw [absorb_cons_of_overflow hover, absorbOrAbort, addCount?, if_neg (Nat.not_le.2 hover)]
      rfl
    · obtain ⟨m, c', hadd, hc', -⟩ := growth.addOccurrences hc a hle
      rw [absorbOrAbort, absorb, addCount?, if_pos hle]
      simp only [map_bind]
      refine Traced.bind_congr_val _ ?_
      rw [hadd]
      exact ih hc'

namespace CountingLaws

variable [Counted C α]

theorem exists_summed (laws : CountingLaws C sound key)
    (hruns : ∀ {c}, sound c → InRuns key (occurrencesOf c) (toList c) (distinct c))
    {es : List (α × ℕ)} (hle : (es.map Prod.snd).sum ≤ maxWord) :
    ∃ c : C, (ofEntries es).val = .ok c ∧ Summed key es c := by
  obtain ⟨c, hval, hc, hsize, hocc⟩ := laws.exists_absorb laws.sound_empty es (by
    rwa [laws.size_empty, Nat.zero_add])
  have hsum : ∀ a, occurrencesOf c a = sumOf key es a := by
    intro a
    rw [hocc, laws.occurrencesOf_empty, Nat.zero_add, sumOf]
  refine ⟨c, hval, hsum, fun a => ?_, ?_, ?_⟩
  · rw [laws.contains_eq hc, hsum]
  · rw [hsize, laws.size_empty, Nat.zero_add]
  · rw [← funext hsum]
    exact hruns hc

/-- A type of bags sums up the counts of any list, or ends at the first that is too much. -/
theorem sumsUp (laws : CountingLaws C sound key)
    (hruns : ∀ {c}, sound c → InRuns key (occurrencesOf c) (toList c) (distinct c)) :
    SumsUp C key where
  exists_summed := fun _ hle => laws.exists_summed hruns hle
  exists_overflow := by
    intro es hover
    rw [← Nat.zero_add (es.map Prod.snd).sum] at hover
    obtain ⟨earlier, a, n, later, hes, hfits, hover⟩ :=
      exists_overflowing (Nat.zero_le maxWord) hover
    rw [Nat.zero_add] at hfits hover
    obtain ⟨c, hval, hsummed⟩ := laws.exists_summed hruns hfits
    rw [← hsummed.size_eq] at hover
    refine ⟨earlier, a, n, later, hes, ⟨c, hval, hsummed, hover⟩, fun others => ?_⟩
    rw [ofEntries, absorb_append, map_eq_pure_bind]
    refine Traced.bind_congr_val _ ?_
    rw [ofEntries] at hval
    rw [hval]
    exact absorb_cons_of_overflow hover others
  absorbOrAbort_eq := fun es => laws.toBagGrowth.absorbOrAbort_eq laws.sound_empty es

end CountingLaws

theorem Counted.SumsUp.val_ofEntries_overflow [Counted C α] (h : SumsUp C key) {es : List (α × ℕ)}
    (hover : maxWord < (es.map Prod.snd).sum) :
    (ofEntries es : Traced (Except Fault C)).val = .error .countOverflow := by
  obtain ⟨earlier, a, n, later, rfl, -, hend⟩ := h.exists_overflow es hover
  rw [hend later]
  rfl

/-- A document whose counts are too much is refused for that, whatever else is wrong with it further
on. -/
theorem Counted.SumsUp.val_bagOfDocument_overflow [Counted C α] [Element α] (h : SumsUp C key)
    {document : String}
    (hover : maxWord < ((Listing.entries document : Listing (α × ℕ)).items.map Prod.snd).sum) :
    (bagOfDocument document : Traced (Except Fault C)).val = .error .countOverflow := by
  rw [bagOfDocument, Traced.val_map, h.val_ofEntries_overflow hover]
  rfl

/-! ### All containers -/

/-- **Listed counts are added up, or refused at the first that is too much.**  Of any list of values
with counts, with repetitions and zeros, comes the bag that holds each value as often as its counts
say together, if all counts together are a machine word.  Else there is a first count that is too
much, and the fault that reports it, and nothing after it counts.  No addition on the way aborts.  A
set comes of any list of values, and holds just these. -/
theorem listings_sum_up :
    (∀ k : Kind, SumsUp (ScalarBag k) Scalar.key) ∧ SumsUp BoolBag (id : Bool → Bool) ∧
    (∀ (α : Type) [DecidableEq α], SumsUp (Tally α) (id : α → α)) ∧
    (∀ (k : Kind) (vs : List (Scalar k)), ∃ s : ScalarSet k,
      (extend empty vs).val = (.ok (), s) ∧ Listed Scalar.key vs s) ∧
    (∀ vs : List Bool, ∃ s : BoolSet,
      (extend empty vs).val = (.ok (), s) ∧ Listed (id : Bool → Bool) vs s) ∧
    Fault.countOverflow.message? = some "malformed input: occurrence count overflow" := by
  refine ⟨fun k => ?_, ?_, fun α _ => ?_, fun k vs => ?_, fun vs => ?_, rfl⟩
  · exact (tuningLaws_scalarBag k).toCountingLaws.sumsUp (bagLaws_scalarBag k).inRuns
  · exact tuningLaws_boolBag.toCountingLaws.sumsUp bagLaws_boolBag.inRuns
  · exact countingLaws_tally.sumsUp Tally.Sound.inRuns
  · exact (setGrowth_scalarSet k).exists_listed (setLaws_scalarSet k) vs
  · exact setGrowth_boolSet.exists_listed setLaws_boolSet vs

/-- For example two bytes whose counts, one of them zero, are together as many as there can be, and
one more occurrence. -/
theorem listings_sum_up_limit :
    let byte : ℕ → Scalar .u8 := fun n => (Scalar.ofBits? .u8 (UInt64.ofNat n)).getD default
    let full := [(byte 1, maxWord - 1), (byte 3, 0), (byte 2, 0), (byte 2, 1)]
    (∃ b : ScalarBag .u8, (ofEntries full).val = .ok b ∧ b.size = maxWord ∧
      b.occurrencesOf (byte 2) = 1 ∧ b.contains (byte 3) = false) ∧
      ∀ others, (ofEntries (full ++ (byte 1, 1) :: others) :
        Traced (Except Fault (ScalarBag .u8))).val = .error .countOverflow := by
  intro byte full
  have hsums := listings_sum_up.1 .u8
  have hfull : (full.map Prod.snd).sum = maxWord := by
    simp only [full]
    decide
  obtain ⟨htwo, hthree⟩ :
      sumOf Scalar.key full (byte 2) = 1 ∧ sumOf Scalar.key full (byte 3) = 0 := by
    simp only [full, byte]
    decide +kernel
  refine ⟨?_, fun others => hsums.val_ofEntries_overflow ?_⟩
  · obtain ⟨b, hval, hsummed⟩ := hsums.exists_summed full hfull.le
    refine ⟨b, hval, hsummed.size_eq.trans hfull, (hsummed.occurrencesOf_eq _).trans htwo, ?_⟩
    exact (hsummed.contains_eq (byte 3)).trans (decide_eq_false (not_not.2 hthree))
  · rw [List.map_append, List.sum_append, hfull, List.map_cons, List.sum_cons]
    omega

end Slotted
