import Slotted.Proofs.Lockstep.Counts

/-!
# Bags of scalars and tallies are interchangeable

A bag of scalars keeps its counts beside the slots of a table, a tally in a list of entries whose
order nobody knows.  Given the same calls, the two nevertheless answer alike, refuse alike, compare
equal and have one hash code, at whatever times the entries of the tally come to stand in another
order.  For floats this is not so, as a tally takes two NaNs for different elements if their bits
are.

To merge tallies is to add the entries of the one to the other.  As each addition is a sum, their
order does not matter there, either.

## Main definitions

* `Tally.Step` — a call on a tally, after which its entries may stand in another order.
* `ScalarBag.Interchangeable` — a bag of scalars and a tally that cannot be told apart.
* `ScalarBag.CountsLike` — a bag of scalars and a tally with the same counts.

## Main results

* `ScalarBag.CountsLike.interchangeable` — to have the same counts is enough for that.
* `Tally.val_extend`, `ScalarBag.val_extend` — the extensions that calls make are their own.
* `Tally.Sound.exists_merge` — merging adds up the counts.
* `bag_tally_interchangeable` — both, for what sequences of calls lead to.
-/

namespace Slotted

variable {k : Kind}

/-- The extension of collections is, for a tally, its own. -/
theorem Tally.val_extend {α : Type} [DecidableEq α] (t : Tally α) (as : List α) :
    (Collection.extend t as).val = t.extend as := by
  induction as generalizing t with
  | nil => rfl
  | cons a as ih =>
    have hadd : (Collection.add t a).val = t.add a := rfl
    rw [Collection.extend, Tally.extend, Traced.val_bind, hadd]
    rcases t.add a with ⟨r, t'⟩
    cases r with
    | ok fresh => exact ih t'
    | error e => rfl

/-- For a bag of scalars, too. -/
theorem ScalarBag.val_extend (b : ScalarBag k) (vs : List (Scalar k)) :
    (Collection.extend b vs).val = (b.extend vs).val := by
  induction vs generalizing b with
  | nil => rfl
  | cons v vs ih =>
    have hadd : (Collection.add b v).val = (b.add v).val := rfl
    rw [Collection.extend, ScalarBag.extend, Traced.val_bind, Traced.val_bind, hadd]
    rcases (b.add v).val with ⟨r, b'⟩
    cases r with
    | ok fresh => exact ih b'
    | error e => rfl

/-- A tally answers a call, and then its entries may come to stand in another order. -/
inductive Tally.Step {α : Type} [DecidableEq α] (t : Tally α) (call : CountedCall α) :
    Response → Tally α → Prop where
  /-- The answer, and what it leaves. -/
  | reorder {r : Response} {t' : Tally α} {es : List (α × ℕ)} :
      call.run t = (r, t') → es.Perm t'.entries → Step t call r ⟨es, t'.total⟩

/-- A bag of scalars and a tally that nothing tells apart. -/
structure ScalarBag.Interchangeable (b : ScalarBag k) (t : Tally (Scalar k)) : Prop where
  /-- The total of the tally is the sum of its counts. -/
  total_eq : t.total = (t.entries.map Prod.snd).sum
  /-- None of these is zero. -/
  count_ne : ∀ e ∈ t.entries, e.2 ≠ 0
  /-- No element has two of them. -/
  nodup : (t.entries.map Prod.fst).Nodup
  /-- The bag is equal to the tally. -/
  eqv : b.eqvTally t = true
  /-- They have one hash code. -/
  hashCode_eq : b.hashCode = t.hashCode
  /-- They give the same response to each call. -/
  answer_eq : ∀ call : CountedCall (Scalar k), (call.run b).1 = (call.run t).1
  /-- If it is a refusal of a single call, then it changes neither of them. -/
  eq_of_refused : ∀ {call : CountedCall (Scalar k)} {why : Failure}, call.Single →
    (call.run t).1 = .refused why → (call.run b).2 = b ∧ (call.run t).2 = t

/-! ### Equal counts -/

/-- A bag of scalars and a tally with the same counts. -/
def ScalarBag.CountsLike (b : ScalarBag k) (t : Tally (Scalar k)) : Prop :=
  SameCountsBy ScalarBag.Sound Tally.Sound id id b t

/-- The two are in step. -/
theorem inStep_bag_tally (hk : k.isFloat = false) :
    InStep (K := CountedCall (Scalar k)) CountedCall.run CountedCall.run
      (ScalarBag.CountsLike (k := k)) := by
  -- a tally compares the values themselves, which is no different but for floats
  have hkey : ∀ v w : Scalar k, id (id v) = id (id w) ↔ v.key = w.key := by
    intro v w
    exact (Scalar.key_injective hk).eq_iff.symm
  have hstep := (tuningLaws_scalarBag k).toCountingLaws.inStep countingLaws_tally hkey
  constructor
  intro b t h call
  have hagree := hstep.agree h call
  rwa [CountedCall.map_id] at hagree

/-- A bag of scalars and a tally with the same counts cannot be told apart. -/
theorem ScalarBag.CountsLike.interchangeable {b : ScalarBag k} {t : Tally (Scalar k)}
    (hk : k.isFloat = false) (h : b.CountsLike t) : b.Interchangeable t := by
  have heqv := (eqvTally_iff_occurrencesOf hk h.left h.right).2 h.occurrencesOf_eq
  have hanswer : ∀ call : CountedCall (Scalar k), (call.run b).1 = (call.run t).1 :=
    fun call => ((inStep_bag_tally hk).agree h call).1
  refine ⟨h.right.total_eq, h.right.proper.count_ne, h.right.proper.nodup, heqv,
    hashCode_eq_of_eqvTally hk h.left h.right heqv, hanswer, ?_⟩
  intro call why hsingle hrefused
  constructor
  · exact (tuningLaws_scalarBag k).toCountingLaws.eq_of_refused h.left hsingle
      ((hanswer call).trans hrefused)
  · exact countingLaws_tally.eq_of_refused h.right hsingle hrefused

/-- The order of the entries does not count. -/
theorem ScalarBag.CountsLike.reorder {b : ScalarBag k} {t : Tally (Scalar k)}
    {es : List (Scalar k × ℕ)} (h : b.CountsLike t) (hperm : es.Perm t.entries) :
    b.CountsLike ⟨es, t.total⟩ := by
  have hcount := (h.right.proper.perm hperm).perm_iff h.right.proper |>.1 hperm
  exact ⟨h.left, h.right.reorder hperm, h.size_eq,
    fun v => (h.occurrencesOf_eq v).trans (hcount v).symm,
    fun v hv => absurd rfl (hv v)⟩

/-- So a step leaves a tally as like to a bag as the call does. -/
theorem Tally.Step.follows {t t' : Tally (Scalar k)} {call : CountedCall (Scalar k)} {r : Response}
    (h : t.Step call r t') : r = (call.run t).1 ∧
      ∀ {b : ScalarBag k}, b.CountsLike (call.run t).2 → b.CountsLike t' := by
  obtain ⟨hcall, hperm⟩ := h
  rw [hcall]
  exact ⟨rfl, fun hb => hb.reorder hperm⟩

/-- A tally can take any calls, with its entries left in place. -/
theorem Tally.exists_run_step {α : Type} [DecidableEq α] (t : Tally α)
    (calls : List (CountedCall α)) : ∃ rs t', Run Tally.Step t calls rs t' := by
  have hstep : ∀ (t t₁ : Tally α) (call : CountedCall α), t = t₁ →
      ∃ t', t₁.Step call (call.run t).1 t' ∧ (call.run t).2 = t' := by
    rintro t _ call rfl
    exact ⟨_, .reorder rfl (.refl _), rfl⟩
  obtain ⟨t', hrun, -⟩ := exists_run CountedCall.run Tally.Step hstep calls rfl
  exact ⟨_, t', hrun⟩

/-! ### Merging -/

section

variable {α : Type} [DecidableEq α] {t t' : Tally α} {es : List (α × ℕ)}

/-- To add entries one by one is to add up their counts. -/
theorem Tally.Sound.exists_mergeEntries (ht : t.Sound)
    (hle : t.total + (es.map Prod.snd).sum ≤ maxWord) :
    ∃ m, t.mergeEntries es = (.ok (), m) ∧ m.total = t.total + (es.map Prod.snd).sum ∧
      ∀ a, m.occurrencesOf a
        = t.occurrencesOf a + (es.map fun e => if a = e.1 then e.2 else 0).sum := by
  induction es generalizing t with
  | nil => exact ⟨t, rfl, rfl, fun a => rfl⟩
  | cons e es ih =>
    obtain ⟨a, n⟩ := e
    rw [List.map_cons, List.sum_cons] at hle
    obtain ⟨m, t₁, hadd, ht₁, hsize, hocc⟩ := bagGrowth_tally.addOccurrences ht a (n := n)
      (show t.total + n ≤ maxWord by omega)
    have htotal : t₁.total = t.total + n := hsize
    obtain ⟨d, hd, hsum, hcount⟩ := ih ht₁ (by omega)
    refine ⟨d, ?_, ?_, ?_⟩
    · have hval : t.addOccurrences a n = (.ok m, t₁) := hadd
      rw [Tally.mergeEntries, hval]
      exact hd
    · rw [hsum, htotal, List.map_cons, List.sum_cons, Nat.add_assoc]
    · intro b
      have hb : t₁.occurrencesOf b = t.occurrencesOf b + if b = a then n else 0 := hocc b
      rw [hcount, hb, List.map_cons, List.sum_cons, Nat.add_assoc]

/-- **Merging adds up the counts**, in whatever order the other tally is gone through. -/
theorem Tally.Sound.exists_merge (ht : t.Sound) (ht' : t'.Sound)
    (hle : t.total + t'.total ≤ maxWord) (hperm : es.Perm t'.entries) :
    ∃ m, t.merge ⟨es, t'.total⟩ = (.ok (), m) ∧ m.total = t.total + t'.total ∧
      ∀ a, m.occurrencesOf a = t.occurrencesOf a + t'.occurrencesOf a := by
  have hes := ht'.proper.perm hperm
  have hsum : (es.map Prod.snd).sum = t'.total := by
    rw [ht'.total_eq, (hperm.map Prod.snd).sum_eq]
  rw [← hsum] at hle
  obtain ⟨m, hm, htotal, hcount⟩ := ht.exists_mergeEntries hle
  refine ⟨m, hm, by rw [htotal, hsum], ?_⟩
  intro a
  rw [hcount, ← countIn_eq_sum hes.nodup, (hes.perm_iff ht'.proper).1 hperm a]
  rfl

end

/-! ### Sequences of calls -/

/-- **Bags of scalars and tallies are interchangeable.**  But for floats, whatever the calls on a
new bag and a new tally are, both give the same responses, and then the counts of the tally, which
add up to its total, are those of the bag: the two are equal, have one hash code and give the same
response to the next call; a single call that one refuses, both refuse, and stay as they are.  Two
tallies that are small enough merge into one with the sums of their counts.  All this holds in
whatever order the entries of a tally come to stand. -/
theorem bag_tally_interchangeable :
    (∀ {k : Kind}, k.isFloat = false → ∀ calls : List (CountedCall (Scalar k)),
      (∃ rs t, Run Tally.Step .empty calls rs t) ∧
      ∀ {rs : List Response} {t : Tally (Scalar k)}, Run Tally.Step .empty calls rs t →
        (runCalls CountedCall.run calls (ScalarBag.empty : ScalarBag k)).1 = rs ∧
        (runCalls CountedCall.run calls (ScalarBag.empty : ScalarBag k)).2.Interchangeable t) ∧
    ∀ {α : Type} [DecidableEq α] {t t' : Tally α}, t.Reachable → t'.Reachable →
      t.total + t'.total ≤ maxWord → ∀ {es : List (α × ℕ)}, es.Perm t'.entries →
      ∃ m, t.merge ⟨es, t'.total⟩ = (.ok (), m) ∧ m.total = t.total + t'.total ∧
        ∀ a, m.occurrencesOf a = t.occurrencesOf a + t'.occurrencesOf a := by
  constructor
  · intro k hk calls
    refine ⟨Tally.exists_run_step .empty calls, ?_⟩
    intro rs t hrun
    have hempty : (ScalarBag.empty : ScalarBag k).CountsLike .empty :=
      .empty (bagGrowth_scalarBag k) bagGrowth_tally
    obtain ⟨hanswers, hlast⟩ := (inStep_bag_tally hk).agree_of_run Tally.Step.follows hrun hempty
    exact ⟨hanswers, hlast.interchangeable hk⟩
  · intro α _ t t' ht ht' hle es hperm
    exact ht.sound.exists_merge ht'.sound hle hperm

/-- For example a bag and a tally that take in two values and refuse more occurrences of one of them
than there is room for; the entries of the tally have changed places.  Merged with itself the tally
counts each value twice. -/
theorem bag_tally_interchangeable_swapped :
    let one : Scalar .u8 := ⟨1, by decide⟩
    let two : Scalar .u8 := ⟨2, by decide⟩
    let calls : List (CountedCall (Scalar .u8)) :=
      [.collection (.extend [one, two]), .addOccurrences one maxWord]
    let b := runCalls CountedCall.run calls (ScalarBag.empty : ScalarBag .u8)
    let t : Tally (Scalar .u8) := ⟨[(one, 1), (two, 1)], 2⟩
    let u := (Tally.empty.extend [one, two]).2
    Kind.u8.isFloat = false ∧
      Run Tally.Step .empty calls [.done, .refused (.abort .countOverflow)] t ∧
      b.1 = [.done, .refused (.abort .countOverflow)] ∧ b.2.eqvTally t = true ∧
      b.2.hashCode = t.hashCode ∧ u.Reachable ∧ t.Reachable ∧ u.total + t.total ≤ maxWord ∧
      t.entries.Perm u.entries ∧ ∃ m, u.merge t = (.ok (), m) ∧ m.total = 4 ∧
        m.occurrencesOf one = 2 ∧ m.occurrencesOf two = 2 := by
  intro one two calls b t u
  obtain ⟨hcalls, hmerge⟩ := bag_tally_interchangeable
  have hswap : t.entries.Perm u.entries := List.Perm.swap _ _ _
  have hu : u.Reachable := .extend _ .empty
  have ht : t.Reachable := .reorder hswap hu
  have hfirst : (CountedCall.collection (.extend [one, two])).run .empty = (.done, u) := rfl
  have hsecond : (CountedCall.addOccurrences one maxWord).run t
      = (.refused (.abort .countOverflow), t) := by
    have hover := bagGrowth_tally.addOccurrences_overflow ht.sound one
      (show maxWord < t.total + maxWord by decide)
    rw [CountedCall.run, hover]
    rfl
  have hrun : Run Tally.Step .empty calls [.done, .refused (.abort .countOverflow)] t :=
    .cons (.reorder hfirst hswap) (.cons (.reorder hsecond (.refl _)) (.nil t))
  obtain ⟨hanswers, hsame⟩ := (hcalls rfl calls).2 hrun
  have hle : u.total + t.total ≤ maxWord := by decide
  obtain ⟨m, hm, htotal, hcount⟩ := hmerge hu ht hle (.refl _)
  exact ⟨rfl, hrun, hanswers, hsame.eqv, hsame.hashCode_eq, hu, ht, hle, hswap, m, hm, htotal,
    hcount one, hcount two⟩

end Slotted
