import Slotted.Proofs.Json.Numeral

/-!
# Integers and literals are read back

The numeral of an integer has no parts but its digits.  A literal ends with its own quote, whatever
follows.

## Main definitions

* `Numeral.ofInt` — the numeral that an integer is written as.

## Main results

* `Token.read?_signedText` — a numeral is read as what its parts say.
* `Numeral.toInt?_ofInt` — that of an integer stands for it, if a machine word can hold it.
* `Token.read?_write` — the literal of a string is read as the string.
-/

namespace Slotted.Json

variable {rest : List Char}

/-! ### Numerals of integers -/

/-- The numeral that an integer is written as. -/
def Numeral.ofInt (i : ℤ) : Numeral where
  negative := decide (i < 0)
  digits := i.natAbs
  exponent := 0
  integral := true
  zeros := 0

/-- The parts of the numeral of a natural number. -/
def Parts.ofNat (n : ℕ) : Parts := { whole := writeNat n }

theorem Parts.wellFormed_ofNat (n : ℕ) : (ofNat n).WellFormed where
  whole_ne := writeNat_ne_nil n
  whole_digits := fun _ => isDigit_of_mem_writeNat
  fraction_digits := fun _ hc => by cases hc
  whole_zero := fun hzero => by
    obtain rfl := eq_zero_of_head?_writeNat hzero
    rfl

theorem Numeral.ofParts_ofNat (i : ℤ) :
    ofParts (decide (i < 0)) (.ofNat i.natAbs) = ofInt i := by
  simp [ofParts, Parts.ofNat, ofInt, ofDigits_writeNat]

theorem writeInt_eq (i : ℤ) :
    writeInt i = (Parts.ofNat i.natAbs).signedText (decide (i < 0)) := by
  cases i with
  | ofNat n =>
    simp [writeInt, Parts.ofNat, Parts.signedText, Parts.text, fractionText, powerText]
  | negSucc n =>
    simp [writeInt, Parts.ofNat, Parts.signedText, Parts.text, fractionText, powerText,
      Int.negSucc_lt_zero]

/-- A machine word, signed or unsigned, is an integer again. -/
theorem Numeral.toInt?_ofInt {i : ℤ} (hmin : -0x8000000000000000 ≤ i)
    (hmax : i ≤ 0xffffffffffffffff) : (ofInt i).toInt? = some i := by
  rw [toInt?, ofInt]
  by_cases hneg : i < 0
  · have hdigits : 0 < i.natAbs ∧ i.natAbs ≤ 0x8000000000000000 := by omega
    have hi : -(i.natAbs : ℤ) = i := by omega
    simp only [hneg, decide_true, if_pos hdigits, hi]
    rfl
  · have hdigits : i.natAbs ≤ 0xffffffffffffffff := by omega
    have hi : (i.natAbs : ℤ) = i := by omega
    simp only [hneg, decide_false, if_pos hdigits, hi]
    rfl

/-! ### Tokens -/

theorem isBlank_of_beginsNumeral {c : Char} (hc : BeginsNumeral c) : isBlank c = false := by
  refine Bool.eq_false_iff.2 fun hblank => ?_
  simp only [isBlank, Bool.or_eq_true, beq_iff_eq] at hblank
  rcases hblank with ((rfl | rfl) | rfl) | rfl <;> exact absurd hc (by decide)

theorem skipBlanks_cons {c : Char} (hc : isBlank c = false) (cs : List Char) :
    skipBlanks (c :: cs) = c :: cs :=
  List.dropWhile_cons_of_neg (Bool.eq_false_iff.1 hc)

theorem Token.read?_of_beginsNumeral {c : Char} (hc : BeginsNumeral c) (cs : List Char) :
    Token.read? (c :: cs)
      = (Numeral.read? (c :: cs)).map fun (n, rest) => (.number n, rest) := by
  rw [Token.read?, skipBlanks_cons (isBlank_of_beginsNumeral hc)]
  split
  case h_7 => rfl
  -- the characters that begin any other token
  all_goals
    rename_i heq
    cases heq
    exact absurd hc (by decide)

/-- The text of parts is a token. -/
theorem Token.read?_signedText (negative : Bool) {p : Parts} (hp : p.WellFormed)
    (h : Delimited rest) :
    Token.read? (p.signedText negative ++ rest) = some (.number (.ofParts negative p), rest) := by
  have hnumeral := Numeral.read?_signedText negative hp h
  obtain ⟨c, cs, hcs, hc⟩ := Parts.exists_signedText_eq negative hp
  rw [hcs, List.cons_append] at hnumeral ⊢
  rw [Token.read?_of_beginsNumeral hc, hnumeral]
  rfl

/-! ### Literals -/

namespace Literal

theorem hexValue?_hexDigit : ∀ d < 16, hexValue? (hexDigit d) = some d := by decide

theorem readEscape?_unit {c : Char} (hc : c < ' ') (rest : List Char) :
    readEscape? ('u' :: '0' :: '0' :: hexDigit (c.toNat / 16) :: hexDigit (c.toNat % 16) :: rest)
      = some (c, rest) := by
  have hlt : c.toNat < 32 := hc
  have hunit : readUnit? ('0' :: '0' :: hexDigit (c.toNat / 16) :: hexDigit (c.toNat % 16) :: rest)
      = some (c.toNat, rest) := by
    have hzero : hexValue? '0' = some 0 := by decide
    have hsum : ((0 * 16 + 0) * 16 + c.toNat / 16) * 16 + c.toNat % 16 = c.toNat := by omega
    simp only [readUnit?, hzero, hexValue?_hexDigit _ (show c.toNat / 16 < 16 by omega),
      hexValue?_hexDigit _ (show c.toNat % 16 < 16 by omega), Option.bind_eq_bind,
      Option.bind_some, hsum]
    rfl
  have hlow : c.toNat < 0xd800 ∨ 0xe000 ≤ c.toNat := by omega
  show readNumbered? _ = _
  rw [readNumbered?, hunit]
  simp only [Option.bind_eq_bind, Option.bind_some, if_pos hlow, Char.ofNat_toNat]
  rfl

/-- A character of a literal is an escape that names it, or it stands for itself. -/
theorem writeChar_cases (c : Char) :
    (∃ cs, writeChar c = backslash :: cs ∧
      ∀ rest, readEscape? (cs ++ rest) = some (c, rest)) ∨
    (writeChar c = [c] ∧ c ≠ quote ∧ c ≠ backslash ∧ ¬ c < ' ') := by
  rw [writeChar]
  split
  · next h => exact Or.inl ⟨[quote], rfl, fun rest => by rw [h]; rfl⟩
  split
  · next h => exact Or.inl ⟨[backslash], rfl, fun rest => by rw [h]; rfl⟩
  split
  · next h => exact Or.inl ⟨['b'], rfl, fun rest => by rw [h]; rfl⟩
  split
  · next h => exact Or.inl ⟨['f'], rfl, fun rest => by rw [h]; rfl⟩
  split
  · next h => exact Or.inl ⟨['n'], rfl, fun rest => by rw [h]; rfl⟩
  split
  · next h => exact Or.inl ⟨['r'], rfl, fun rest => by rw [h]; rfl⟩
  split
  · next h => exact Or.inl ⟨['t'], rfl, fun rest => by rw [h]; rfl⟩
  split
  · next h => exact Or.inl ⟨_, rfl, fun rest => readEscape?_unit h rest⟩
  · next hquote hbackslash _ _ _ _ _ hcontrol =>
    exact Or.inr ⟨rfl, hquote, hbackslash, hcontrol⟩

theorem bind_cons (c : Char) (read : Option (List Char × List Char)) :
    (do let (cs, rest) ← read; return (c :: cs, rest))
      = read.map fun (cs, rest) => (c :: cs, rest) := by
  cases read <;> rfl

theorem readFrom?_writeChar (fuel : ℕ) (c : Char) (rest : List Char) :
    readFrom? (fuel + 1) (writeChar c ++ rest)
      = (readFrom? fuel rest).map fun (cs, rest) => (c :: cs, rest) := by
  rcases writeChar_cases c with ⟨cs, hcs, hescape⟩ | ⟨hcs, hquote, hbackslash, hcontrol⟩
  · have hne : backslash ≠ quote := by decide
    rw [hcs, List.cons_append, readFrom?, if_neg hne, if_pos rfl, hescape]
    exact bind_cons c _
  · rw [hcs, List.cons_append, readFrom?, if_neg hquote, if_neg hbackslash, if_neg hcontrol]
    exact bind_cons c _

theorem readFrom?_flatMap_writeChar {fuel : ℕ} (cs rest : List Char) (h : cs.length < fuel) :
    readFrom? fuel (cs.flatMap writeChar ++ quote :: rest) = some (cs, rest) := by
  induction cs generalizing fuel with
  | nil =>
    obtain ⟨fuel, rfl⟩ := Nat.exists_eq_succ_of_ne_zero (Nat.ne_zero_of_lt h)
    exact if_pos rfl
  | cons c cs ih =>
    obtain ⟨fuel, rfl⟩ := Nat.exists_eq_succ_of_ne_zero (Nat.ne_zero_of_lt h)
    rw [List.flatMap_cons, List.append_assoc, readFrom?_writeChar,
      ih (Nat.lt_of_succ_lt_succ h)]
    rfl

theorem length_le_length_flatMap_writeChar (cs : List Char) :
    cs.length ≤ (cs.flatMap writeChar).length := by
  induction cs with
  | nil => exact Nat.zero_le _
  | cons c cs ih =>
    have hpos : 0 < (writeChar c).length := by
      rcases writeChar_cases c with ⟨cs, hcs, -⟩ | ⟨hcs, -⟩ <;> rw [hcs] <;> exact Nat.succ_pos _
    rw [List.flatMap_cons, List.length_append, List.length_cons]
    omega

theorem read?_flatMap_writeChar (cs rest : List Char) :
    read? (cs.flatMap writeChar ++ quote :: rest) = some (cs, rest) := by
  refine readFrom?_flatMap_writeChar cs rest ?_
  have hle := length_le_length_flatMap_writeChar cs
  rw [List.length_append, List.length_cons]
  omega

end Literal

/-- The literal of a string is read as the string. -/
theorem Token.read?_write (cs rest : List Char) :
    Token.read? (Literal.write cs ++ rest) = some (.string cs, rest) := by
  rw [Literal.write, List.cons_append, List.append_assoc]
  show (Literal.read? (cs.flatMap Literal.writeChar ++ Literal.quote :: rest)).map _ = _
  rw [Literal.read?_flatMap_writeChar]
  rfl

end Slotted.Json
