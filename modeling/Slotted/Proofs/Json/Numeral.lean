import Mathlib.Data.Nat.Basic
import Slotted.Json.Element

/-!
# Numerals are read back

A numeral has up to three parts: the digits before the point, those behind it, and an exponent.
What a part begins with shows where the one before it ends; the last one ends where no digit, point
or exponent follows, which in a list is a comma or a closing bracket.

## Main definitions

* `Delimited` — a text that begins where an item of a list ends.
* `Parts`, `Parts.signedText` — the parts of a numeral, and the numeral.
* `Numeral.ofParts` — what they say.
* `BeginsNumeral` — the characters that numerals begin with.

## Main results

* `Numeral.read?_signedText` — the text of parts is read as what they say.
-/

namespace Slotted.Json

variable {ds rest : List Char} {c : Char} {n : ℕ}

/-! ### Where parts end -/

/-- A text that begins where an item of a list ends: with a comma or a closing bracket. -/
def Delimited (cs : List Char) : Prop := ∃ c rest, cs = c :: rest ∧ (c = ',' ∨ c = ']')

/-- A text that does not begin with a digit. -/
def EndsDigits (cs : List Char) : Prop := ∀ c ∈ cs.head?, c.isDigit = false

theorem endsDigits_cons (hc : c.isDigit = false) (cs : List Char) : EndsDigits (c :: cs) := by
  intro d hd
  obtain rfl := Option.some.inj hd
  exact hc

theorem Delimited.endsDigits (h : Delimited rest) : EndsDigits rest := by
  obtain ⟨c, rest, rfl, rfl | rfl⟩ := h <;> exact endsDigits_cons rfl rest

/-- Digits are taken up to where they end. -/
theorem takeDigits_append (hds : ∀ c ∈ ds, c.isDigit = true) (h : EndsDigits rest) :
    takeDigits (ds ++ rest) = (ds, rest) := by
  rw [takeDigits, List.takeWhile_append_of_pos hds, List.dropWhile_append_of_pos hds]
  cases rest with
  | nil => simp
  | cons c rest =>
    have hc : ¬ c.isDigit = true := Bool.eq_false_iff.1 (h c rfl)
    rw [List.takeWhile_cons_of_neg hc, List.dropWhile_cons_of_neg hc, List.append_nil]

theorem takeSomeDigits?_append (hne : ds ≠ []) (hds : ∀ c ∈ ds, c.isDigit = true)
    (h : EndsDigits rest) : takeSomeDigits? (ds ++ rest) = some (ds, rest) := by
  rw [takeSomeDigits?, takeDigits_append hds h]
  split
  · next heq => exact absurd (Prod.mk.inj heq).1 hne
  · rfl

theorem takeWhole?_append (hne : ds ≠ []) (hds : ∀ c ∈ ds, c.isDigit = true)
    (hzero : ds.head? = some '0' → ds = ['0']) (h : EndsDigits rest) :
    takeWhole? (ds ++ rest) = some (ds, rest) := by
  rw [takeWhole?, takeDigits_append hds h]
  split
  · next heq => exact absurd (Prod.mk.inj heq).1 hne
  · next heq =>
    obtain ⟨rfl, -⟩ := Prod.mk.inj heq
    cases hzero rfl
  · rfl

/-! ### The digits of a number -/

theorem ofDigits_writeNat (n : ℕ) : ofDigits (writeNat n) = n := by
  rw [ofDigits, writeNat, ← Nat.ofDigitChars_eq_foldl]
  exact Nat.ofDigitChars_ten_toDigits

theorem writeNat_ne_nil (n : ℕ) : writeNat n ≠ [] := Nat.toDigits_ne_nil

theorem isDigit_of_mem_writeNat (h : c ∈ writeNat n) : c.isDigit = true :=
  Nat.isDigit_of_mem_toDigits (by decide) (by decide) h

/-- The first digit of a number is a zero only if there is no other. -/
theorem head?_writeNat_ne (hn : n ≠ 0) : (writeNat n).head? ≠ some '0' := by
  induction n using Nat.strong_induction_on with
  | _ n ih =>
    rcases Nat.lt_or_ge n 10 with hlt | hge
    · rw [writeNat, Nat.toDigits_of_lt_base hlt, List.head?_cons]
      exact fun h => hn (Nat.digitChar_eq_zero.1 (Option.some.inj h))
    · have hquot : n / 10 ≠ 0 := by omega
      have hsplit : writeNat n = writeNat (n / 10) ++ [(n % 10).digitChar] :=
        Nat.toDigits_of_base_le (by decide) hge
      rw [hsplit, List.head?_append, Option.or_of_isSome (List.isSome_head?.2 (writeNat_ne_nil _))]
      exact ih (n / 10) (by omega) hquot

theorem eq_zero_of_head?_writeNat (h : (writeNat n).head? = some '0') : n = 0 :=
  Decidable.byContradiction fun hn => head?_writeNat_ne hn h

/-! ### Parts -/

/-- The parts of a numeral, its sign aside. -/
structure Parts where
  /-- The digits before the point. -/
  whole : List Char
  /-- The digits behind the point; without any there is no point. -/
  fraction : List Char := []
  /-- The exponent, if there is one. -/
  power : Option ℤ := none

/-- The digits behind a point, and the point. -/
def fractionText : List Char → List Char
  | [] => []
  | c :: cs => '.' :: c :: cs

/-- An exponent with its sign. -/
def powerText : Option ℤ → List Char
  | none => []
  | some e => 'e' :: (if 0 ≤ e then '+' else '-') :: writeNat e.natAbs

namespace Parts

/-- The numeral. -/
def text (p : Parts) : List Char := p.whole ++ (fractionText p.fraction ++ powerText p.power)

/-- The numeral with its sign. -/
def signedText (negative : Bool) (p : Parts) : List Char :=
  (if negative then ['-'] else []) ++ p.text

/-- There are only digits, at least one before the point, and no superfluous zero in front. -/
structure WellFormed (p : Parts) : Prop where
  /-- There is a digit before the point. -/
  whole_ne : p.whole ≠ []
  /-- The digits before the point are digits. -/
  whole_digits : ∀ c ∈ p.whole, c.isDigit = true
  /-- The digits behind the point are digits. -/
  fraction_digits : ∀ c ∈ p.fraction, c.isDigit = true
  /-- A zero in front is the only digit before the point. -/
  whole_zero : p.whole.head? = some '0' → p.whole = ['0']

end Parts

/-- What parts say. -/
def Numeral.ofParts (negative : Bool) (p : Parts) : Numeral where
  negative
  digits := ofDigits (p.whole ++ p.fraction)
  exponent := p.power.getD 0 - p.fraction.length
  integral := p.fraction.isEmpty && p.power.isNone
  zeros := (p.fraction.reverse.takeWhile (· == '0')).length

theorem endsDigits_powerText (e : Option ℤ) (h : Delimited rest) :
    EndsDigits (powerText e ++ rest) := by
  cases e with
  | none => exact h.endsDigits
  | some e => exact endsDigits_cons rfl _

theorem endsDigits_fractionText (ds : List Char) (h : EndsDigits rest) :
    EndsDigits (fractionText ds ++ rest) := by
  cases ds with
  | nil => exact h
  | cons c ds => exact endsDigits_cons rfl _

theorem takeExponent?_powerText (e : Option ℤ) (h : Delimited rest) :
    takeExponent? (powerText e ++ rest) = some (e, rest) := by
  cases e with
  | none => obtain ⟨c, rest, rfl, rfl | rfl⟩ := h <;> rfl
  | some e =>
    have hdigits : takeSomeDigits? (writeNat e.natAbs ++ rest)
        = some (writeNat e.natAbs, rest) :=
      takeSomeDigits?_append (writeNat_ne_nil _) (fun _ => isDigit_of_mem_writeNat) h.endsDigits
    by_cases hsign : 0 ≤ e
    · have hvalue : (ofDigits (writeNat e.natAbs) : ℤ) = e := by
        rw [ofDigits_writeNat, Int.natAbs_of_nonneg hsign]
      rw [powerText, if_pos hsign]
      show (takeSomeDigits? (writeNat e.natAbs ++ rest)).map _ = _
      simp only [hdigits, Option.map_some, hvalue]
      rfl
    · have hvalue : -(ofDigits (writeNat e.natAbs) : ℤ) = e := by
        rw [ofDigits_writeNat]
        omega
      rw [powerText, if_neg hsign]
      show (takeSomeDigits? (writeNat e.natAbs ++ rest)).map _ = _
      simp only [hdigits, Option.map_some, if_true, hvalue]

theorem takeFraction?_fractionText (hds : ∀ c ∈ ds, c.isDigit = true) (e : Option ℤ)
    (h : Delimited rest) :
    takeFraction? (fractionText ds ++ (powerText e ++ rest)) = some (ds, powerText e ++ rest) := by
  cases ds with
  | nil =>
    cases e with
    | none => obtain ⟨c, rest, rfl, rfl | rfl⟩ := h <;> rfl
    | some e => rfl
  | cons c ds => exact takeSomeDigits?_append (by simp) hds (endsDigits_powerText e h)

namespace Numeral

/-- The text of parts is read as what they say. -/
theorem readUnsigned?_text (negative : Bool) {p : Parts} (hp : p.WellFormed) (h : Delimited rest) :
    readUnsigned? negative (p.text ++ rest) = some (ofParts negative p, rest) := by
  have hpower := endsDigits_powerText p.power h
  have hwhole := takeWhole?_append hp.whole_ne hp.whole_digits hp.whole_zero
    (endsDigits_fractionText p.fraction hpower)
  rw [readUnsigned?, Parts.text, List.append_assoc, List.append_assoc, hwhole]
  simp only [Option.bind_eq_bind, Option.bind_some,
    takeFraction?_fractionText hp.fraction_digits p.power h, takeExponent?_powerText p.power h]
  rfl

theorem read?_of_isDigit (hc : c.isDigit = true) (cs : List Char) :
    read? (c :: cs) = readUnsigned? false (c :: cs) := by
  rw [read?]
  intro cs heq
  cases heq
  exact absurd hc (by decide)

/-- **Parts with their sign are read as what they say.** -/
theorem read?_signedText (negative : Bool) {p : Parts} (hp : p.WellFormed) (h : Delimited rest) :
    read? (p.signedText negative ++ rest) = some (ofParts negative p, rest) := by
  have hunsigned := readUnsigned?_text negative hp h
  cases negative with
  | true => exact hunsigned
  | false =>
    obtain ⟨c, cs, hcs⟩ := List.exists_cons_of_ne_nil hp.whole_ne
    have hdigit : c.isDigit = true := hp.whole_digits c (hcs ▸ List.mem_cons_self)
    have hread : read? (p.text ++ rest) = readUnsigned? false (p.text ++ rest) := by
      rw [Parts.text, hcs]
      exact read?_of_isDigit hdigit _
    exact hread.trans hunsigned

end Numeral

/-- What a numeral begins with. -/
def BeginsNumeral (c : Char) : Prop := c.isDigit = true ∨ c = '-'

instance (c : Char) : Decidable (BeginsNumeral c) := inferInstanceAs (Decidable (_ ∨ _))

theorem Parts.exists_signedText_eq (negative : Bool) {p : Parts} (hp : p.WellFormed) :
    ∃ c cs, p.signedText negative = c :: cs ∧ BeginsNumeral c := by
  cases negative with
  | true => exact ⟨'-', p.text, rfl, Or.inr rfl⟩
  | false =>
    obtain ⟨c, cs, hcs⟩ := List.exists_cons_of_ne_nil hp.whole_ne
    refine ⟨c, cs ++ (fractionText p.fraction ++ powerText p.power), ?_,
      Or.inl (hp.whole_digits c (hcs ▸ List.mem_cons_self))⟩
    show p.text = _
    rw [Parts.text, hcs]
    rfl

end Slotted.Json
