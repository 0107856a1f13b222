import Slotted.Proofs.Decimal.Shortest
import Slotted.Proofs.Json.Listing

/-!
# Floats are read back

The text of a decimal has a point or an exponent, which tells it from that of an integer.  Written
out, a decimal gets zeros at its end, up to one behind the point; they do not change the number, and
the digits are still few enough to be read one by one.  So the float that is read is the nearest to
its own shortest decimal, which is the float that was written, sign and all.

What is no number is written as a word, which is read and found to be no number.

## Main definitions

* `Decimal.withZeros` — the same decimal with zeros at its end.
* `Parts.render` — the parts of the text of a decimal.

## Main results

* `Parts.toList_render`, `Parts.exists_decimal_render` — the text of a decimal, and what it says.
* `Numeral.magnitude?_render` — the text of the shortest decimal of a number says that number.
* `readAs_writeScalar` — a finite float is read back.
* `refusedAs_writeScalar` — any other float is refused.
-/

namespace Slotted

/-! ### Zeros at the end -/

/-- The same number with zeros at the end of its digits. -/
def Decimal.withZeros (d : Decimal) (t : ℕ) : Decimal := ⟨d.digits * 10 ^ t, d.exponent - t⟩

theorem Decimal.value_withZeros (d : Decimal) (t : ℕ) : (d.withZeros t).value = d.value := by
  have hpow : (10 : ℚ) ^ t ≠ 0 := pow_ne_zero _ (by norm_num)
  simp only [withZeros, value]
  rw [zpow_sub₀ (by norm_num), zpow_natCast]
  push_cast
  field_simp

/-! ### Finite floats -/

theorem Scalar.isFinite_eq_true_iff {k : Kind} {v : Scalar k} :
    v.isFinite = true ↔ k.isFloat = true ∧ v.magnitude < infinityBits k := by
  simp [isFinite]

namespace Json

/-! ### Digits -/

theorem ofDigits_eq (ds : List Char) : ofDigits ds = Nat.ofDigitChars 10 ds 0 := by
  rw [ofDigits, Nat.ofDigitChars_eq_foldl]

theorem ofDigits_append_zeros (ds : List Char) (t : ℕ) :
    ofDigits (ds ++ List.replicate t '0') = ofDigits ds * 10 ^ t := by
  rw [ofDigits_eq, ofDigits_eq, Nat.ofDigitChars_append, Nat.ofDigitChars_replicate_zero,
    Nat.mul_comm]

theorem ofDigits_zeros_append (t : ℕ) (ds : List Char) :
    ofDigits (List.replicate t '0' ++ ds) = ofDigits ds := by
  rw [ofDigits_eq, ofDigits_eq, Nat.ofDigitChars_append, Nat.ofDigitChars_replicate_zero,
    Nat.mul_zero]

theorem length_writeNat_pos (n : ℕ) : 0 < (writeNat n).length :=
  List.length_pos_iff.2 (writeNat_ne_nil n)

theorem isDigit_of_mem_zeros {c : Char} {t : ℕ} (hc : c ∈ List.replicate t '0') :
    c.isDigit = true := by
  rw [List.eq_of_mem_replicate hc]
  rfl

theorem toList_repr (e : ℤ) :
    e.repr.toList = (if 0 ≤ e then [] else ['-']) ++ writeNat e.natAbs := by
  rw [Int.repr_eq_if]
  split
  · next h =>
    have habs : e.toNat = e.natAbs := by omega
    rw [habs, Nat.toList_repr]
    rfl
  · next h =>
    have habs : (-e).toNat = e.natAbs := by omega
    rw [habs, String.toList_append, Nat.toList_repr]
    rfl

/-- An exponent is written with its sign. -/
theorem toList_signed (e : ℤ) : (if 0 ≤ e then "+" ++ e.repr else e.repr).toList
    = (if 0 ≤ e then '+' else '-') :: writeNat e.natAbs := by
  split
  · next h => simp [toList_repr, h]
  · next h => simp [toList_repr, h]

/-! ### The parts of a decimal -/

namespace Parts

variable {d : Decimal}

/-- The decimal that parts say. -/
def decimal (p : Parts) : Decimal :=
  ⟨ofDigits (p.whole ++ p.fraction), p.power.getD 0 - p.fraction.length⟩

/-- The parts of a decimal that is written out. -/
def writtenOut (d : Decimal) : Parts :=
  let ds := writeNat d.digits
  let point : ℤ := ds.length + d.exponent
  if 0 ≤ d.exponent then { whole := ds ++ List.replicate d.exponent.toNat '0', fraction := ['0'] }
  else if 0 < point then { whole := ds.take point.toNat, fraction := ds.drop point.toNat }
  else { whole := ['0'], fraction := List.replicate (-point).toNat '0' ++ ds }

/-- The parts of a decimal with an exponent. -/
def withExponent (d : Decimal) : Parts :=
  let ds := writeNat d.digits
  { whole := ds.take 1, fraction := ds.drop 1, power := some (ds.length - 1 + d.exponent) }

theorem fractionText_of_ne {ds : List Char} (h : ds ≠ []) : fractionText ds = '.' :: ds := by
  obtain ⟨c, cs, rfl⟩ := List.exists_cons_of_ne_nil h
  rfl

theorem toList_writtenOut (d : Decimal) : d.writtenOut.toList = (writtenOut d).text := by
  unfold Decimal.writtenOut writtenOut
  have hdigits : Nat.toDigits 10 d.digits = writeNat d.digits := rfl
  simp only [hdigits, zeros]
  split_ifs with hwhole hpoint
  · simp [text, fractionText, powerText]
  · have hdrop : (writeNat d.digits).drop ((writeNat d.digits).length + d.exponent).toNat ≠ [] := by
      rw [ne_eq, List.drop_eq_nil_iff]
      omega
    simp [text, fractionText_of_ne hdrop, powerText]
  · have hfraction : List.replicate (-((writeNat d.digits).length + d.exponent)).toNat '0'
        ++ writeNat d.digits ≠ [] := by
      simp [writeNat_ne_nil]
    rw [text, fractionText_of_ne hfraction]
    simp [powerText]

theorem toList_withExponent (d : Decimal) :
    (d.withExponent "+").toList = (withExponent d).text := by
  unfold Decimal.withExponent withExponent
  have hdigits : Nat.toDigits 10 d.digits = writeNat d.digits := rfl
  obtain ⟨c, cs, hcs⟩ := List.exists_cons_of_ne_nil (writeNat_ne_nil d.digits)
  simp only [hdigits, hcs, Int.toString_eq_repr]
  cases cs with
  | nil => simp [text, fractionText, powerText, toList_signed]
  | cons c' cs => simp [text, fractionText, powerText, toList_signed]

/-- Zeros are put at the end of a decimal only if it is an integer, up to one behind the point. -/
theorem decimal_writtenOut (d : Decimal) : (writtenOut d).decimal
    = d.withZeros (if 0 ≤ d.exponent then d.exponent.toNat + 1 else 0) := by
  have hlen := length_writeNat_pos d.digits
  unfold writtenOut decimal Decimal.withZeros
  dsimp only
  split_ifs with hwhole hpoint
  · have hzeros : writeNat d.digits ++ List.replicate d.exponent.toNat '0' ++ ['0']
        = writeNat d.digits ++ List.replicate (d.exponent.toNat + 1) '0' := by
      rw [List.append_assoc, List.replicate_succ']
    simp only [hzeros, ofDigits_append_zeros, ofDigits_writeNat, Decimal.mk.injEq, true_and]
    simp
    omega
  · simp [ofDigits_writeNat]
    omega
  · have hzeros (t : ℕ) : ['0'] ++ (List.replicate t '0' ++ writeNat d.digits)
        = List.replicate (t + 1) '0' ++ writeNat d.digits := rfl
    simp only [hzeros, ofDigits_zeros_append, ofDigits_writeNat, Decimal.mk.injEq]
    simp
    omega

theorem decimal_withExponent (d : Decimal) : (withExponent d).decimal = d.withZeros 0 := by
  have hlen := length_writeNat_pos d.digits
  unfold withExponent decimal Decimal.withZeros
  simp only [List.take_append_drop, ofDigits_writeNat, List.length_drop, Decimal.mk.injEq]
  simp
  omega

theorem wellFormed_writtenOut (hzero : d.digits = 0 → d.exponent ≤ 0) :
    (writtenOut d).WellFormed := by
  have hne := writeNat_ne_nil d.digits
  unfold writtenOut
  dsimp only
  split_ifs with hwhole hpoint
  · refine ⟨by simp [hne], ?_, by simp, ?_⟩
    · intro c hc
      rcases List.mem_append.1 hc with hc | hc
      · exact isDigit_of_mem_writeNat hc
      · exact isDigit_of_mem_zeros hc
    · intro hhead
      dsimp only at hhead ⊢
      rw [List.head?_append_of_ne_nil _ hne] at hhead
      have hdigits := eq_zero_of_head?_writeNat hhead
      have hexponent : d.exponent.toNat = 0 := by
        have hle := hzero hdigits
        omega
      rw [hdigits, hexponent]
      rfl
  · have hpos : ((writeNat d.digits).length + d.exponent).toNat ≠ 0 := by omega
    refine ⟨by simp [hne]; omega, fun c hc => isDigit_of_mem_writeNat (List.mem_of_mem_take hc),
      fun c hc => isDigit_of_mem_writeNat (List.mem_of_mem_drop hc), ?_⟩
    intro hhead
    dsimp only at hhead ⊢
    rw [List.head?_take, if_neg hpos] at hhead
    -- a zero has one digit, and that is behind the point
    have hdigits := eq_zero_of_head?_writeNat hhead
    rw [hdigits] at hpoint
    have hone : (writeNat 0).length = 1 := rfl
    omega
  · refine ⟨by simp, by simp, ?_, fun _ => rfl⟩
    intro c hc
    rcases List.mem_append.1 hc with hc | hc
    · exact isDigit_of_mem_zeros hc
    · exact isDigit_of_mem_writeNat hc

theorem wellFormed_withExponent (d : Decimal) : (withExponent d).WellFormed := by
  obtain ⟨c, cs, hcs⟩ := List.exists_cons_of_ne_nil (writeNat_ne_nil d.digits)
  refine ⟨by simp [withExponent, hcs],
    fun c hc => isDigit_of_mem_writeNat (List.mem_of_mem_take hc),
    fun c hc => isDigit_of_mem_writeNat (List.mem_of_mem_drop hc), ?_⟩
  simp [withExponent, hcs]

/-- The parts of the text of a decimal. -/
def render (n : NumberNotation) (d : Decimal) : Parts :=
  let e : ℤ := (writeNat d.digits).length - 1 + d.exponent
  if n.outFrom ≤ e ∧ e < n.outBelow then writtenOut d else withExponent d

theorem toList_render {n : NumberNotation} (hplus : n.plus = "+") (d : Decimal) :
    (n.render d).toList = (render n d).text := by
  have hdigits : Nat.toDigits 10 d.digits = writeNat d.digits := rfl
  unfold NumberNotation.render render
  simp only [hdigits, hplus]
  split
  · exact toList_writtenOut d
  · exact toList_withExponent d

theorem wellFormed_render (n : NumberNotation) (hzero : d.digits = 0 → d.exponent ≤ 0) :
    (render n d).WellFormed := by
  unfold render
  dsimp only
  split
  · exact wellFormed_writtenOut hzero
  · exact wellFormed_withExponent d

/-- The text of a decimal is not that of an integer. -/
theorem not_integral_render (negative : Bool) (n : NumberNotation) (d : Decimal) :
    (Numeral.ofParts negative (render n d)).integral = false := by
  have hlen := length_writeNat_pos d.digits
  unfold render
  dsimp only
  split
  · unfold writtenOut
    dsimp only
    split_ifs with hwhole hpoint
    · simp [Numeral.ofParts]
    · simp [Numeral.ofParts]
      omega
    · simp [Numeral.ofParts, writeNat_ne_nil]
  · simp [Numeral.ofParts, withExponent]

/-- The text of a decimal is that of the same number, with as many zeros at its end as take a number
that is written out to the first place behind the point. -/
theorem exists_decimal_render (n : NumberNotation) (d : Decimal) :
    ∃ t, (render n d).decimal = d.withZeros t ∧
      (t = 0 ∨ (writeNat d.digits).length + t ≤ n.outBelow + 1) := by
  unfold render
  dsimp only
  split
  · refine ⟨_, decimal_writtenOut d, ?_⟩
    split
    · right
      push_cast
      omega
    · exact Or.inl rfl
  · exact ⟨0, decimal_withExponent d, Or.inl rfl⟩

end Parts

/-! ### Numerals -/

namespace Numeral

/-- A numeral whose digits are read one by one is read as it is. -/
theorem abridged_of_lt {n : Numeral} {limit : ℕ} (hlimit : 0 < limit) (h : n.digits < 10 ^ limit) :
    n.abridged limit = (n.digits, n.exponent) :=
  if_pos ((Nat.length_toDigits_le_iff (by decide) hlimit).2 h)

theorem magnitude?_of_not_integral {n : Numeral} {f : BinaryFormat} (h : n.integral = false)
    (hlimit : 0 < f.digitLimit) (hdigits : n.digits < 10 ^ f.digitLimit) :
    n.magnitude? f = f.ofDecimal n.digits n.exponent := by
  have hword : n.isNegatedWord = false := by simp [isNegatedWord, h]
  simp [magnitude?, hword, abridged_of_lt hlimit hdigits]

/-- The text of the shortest decimal of a number says that number. -/
theorem magnitude?_render {f : BinaryFormat} {n : NumberNotation} {bits : ℕ} (hf : f.Proper)
    (hbelow : n.outBelow < f.digitLimit) (hfinite : bits < f.infinity) (negative : Bool) :
    (ofParts negative (Parts.render n (f.shortest n.tie bits))).magnitude? f = some bits := by
  have hdigits : (f.shortest n.tie bits).digits < 10 ^ f.digitLimit :=
    BinaryFormat.digits_shortest_lt hf hfinite
  have hlimit : 0 < f.digitLimit := Nat.zero_lt_of_lt hf.eighteen
  generalize hd : f.shortest n.tie bits = d at hdigits ⊢
  obtain ⟨t, hdecimal, ht⟩ := Parts.exists_decimal_render n d
  have hlt : (Parts.render n d).decimal.digits < 10 ^ f.digitLimit := by
    rw [hdecimal]
    rcases ht with rfl | ht
    · simpa [Decimal.withZeros] using hdigits
    · calc d.digits * 10 ^ t
          < 10 ^ (writeNat d.digits).length * 10 ^ t :=
            Nat.mul_lt_mul_of_pos_right (BinaryFormat.lt_pow_length_toDigits _)
              (Nat.pow_pos (by decide))
        _ = 10 ^ ((writeNat d.digits).length + t) := (Nat.pow_add _ _ _).symm
        _ ≤ 10 ^ f.digitLimit := Nat.pow_le_pow_right (by decide) (by omega)
  have hvalue : (Parts.render n d).decimal.value = (f.shortest n.tie bits).value := by
    rw [hdecimal, Decimal.value_withZeros, hd]
  rw [magnitude?_of_not_integral (Parts.not_integral_render negative n d) hlimit hlt]
  exact BinaryFormat.ofDecimal_of_value_eq hf hfinite hvalue

/-- A value is made of its sign and magnitude. -/
theorem toFloat?_of_magnitude? {k : Kind} {v : Scalar k} {n : Numeral} {f : BinaryFormat}
    (hnegative : n.negative = v.isNegative) (h : n.magnitude? f = some v.magnitude.toNat) :
    n.toFloat? k f = some v := by
  have hbits : UInt64.ofNat ((if n.negative then (Scalar.signWeight k).toNat else 0)
      + v.magnitude.toNat) = v.bits := by
    rw [hnegative]
    cases hsign : v.isNegative with
    | true =>
      rw [if_pos rfl, Nat.add_comm, ← Scalar.bits_eq_of_isNegative hsign, UInt64.ofNat_toNat]
    | false =>
      rw [if_neg (by decide), Nat.zero_add, UInt64.ofNat_toNat]
      exact UInt64.toNat_inj.1 (Scalar.bits_eq_of_not_isNegative hsign).symm
  rw [toFloat?, h]
  simp only [Option.bind_eq_bind, Option.bind_some, hbits, Scalar.ofBits?_bits]

end Numeral

/-! ### Floats of a format -/

/-- The parts of the text of a float. -/
def Parts.ofFloat {k : Kind} (f : BinaryFormat) (n : NumberNotation) (v : Scalar k) : Parts :=
  render n (f.shortest n.tie v.magnitude.toNat)

section Finite

variable {k : Kind} {f : BinaryFormat} {n : NumberNotation} {v : Scalar k}

theorem writeFloat_eq (hplus : n.plus = "+") (hv : v.isFinite = true) :
    writeFloat f n v = (Parts.ofFloat f n v).signedText v.isNegative := by
  have hsign : (if v.isNegative then "-" else "").toList = if v.isNegative then ['-'] else [] := by
    split <;> rfl
  rw [writeFloat, if_pos hv, Scalar.finiteText, String.toList_append, hsign,
    Parts.toList_render hplus]
  rfl

theorem Parts.wellFormed_ofFloat (f : BinaryFormat) (n : NumberNotation) (v : Scalar k) :
    (ofFloat f n v).WellFormed := by
  refine wellFormed_render n fun hzero => ?_
  rw [BinaryFormat.digits_shortest_eq_zero_iff.1 hzero, BinaryFormat.shortest_zero]

/-- A finite float is read back. -/
theorem readAs_writeFloat (hf : f.Proper) (hplus : n.plus = "+")
    (hbelow : n.outBelow < f.digitLimit)
    (hinfinity : (Scalar.infinityBits k).toNat = f.infinity) (hv : v.isFinite = true) :
    ReadAs (readToken (Token.toFloat k f)) (writeFloat f n v) v := by
  have hfinite : v.magnitude.toNat < f.infinity := by
    rw [← hinfinity]
    exact (Scalar.isFinite_eq_true_iff.1 hv).2
  have hfloat : (Numeral.ofParts v.isNegative (Parts.ofFloat f n v)).toFloat? k f = some v :=
    Numeral.toFloat?_of_magnitude? rfl (Numeral.magnitude?_render hf hbelow hfinite v.isNegative)
  have hvalue : Token.toFloat k f (.number (.ofParts v.isNegative (Parts.ofFloat f n v)))
      = .ok v := by
    rw [Token.toFloat, hfloat]
  rw [writeFloat_eq hplus hv]
  exact readAs_signedText (Parts.wellFormed_ofFloat f n v) hvalue

/-- Any other float is refused. -/
theorem refusedAs_writeFloat (hv : v.isFinite = false) :
    RefusedAs (readToken (Token.toFloat k f)) (writeFloat f n v)
      (.wrongType .null (.number k)) := by
  have htext : writeFloat f n v = ['n', 'u', 'l', 'l'] := by
    rw [writeFloat, if_neg (Bool.eq_false_iff.1 hv)]
    rfl
  rw [htext]
  exact ⟨⟨'n', ['u', 'l', 'l'], rfl, rfl, by decide⟩, fun rest _ => rfl⟩

end Finite

/-! ### Floats of a kind -/

variable {k : Kind} {v : Scalar k}

/-- **A finite float is read back from its text.** -/
theorem readAs_writeScalar (hv : v.isFinite = true) :
    ReadAs Element.read (Element.write v) v := by
  have hk : k.isFloat = true := (Scalar.isFinite_eq_true_iff.1 hv).1
  cases k with
  | f32 => exact readAs_writeFloat BinaryFormat.proper_binary32 rfl (by decide) rfl hv
  | f64 => exact readAs_writeFloat BinaryFormat.proper_binary64 rfl (by decide) rfl hv
  | _ => cases hk

/-- **Any other float is refused:** its text is no number. -/
theorem refusedAs_writeScalar (hk : k.isFloat = true) (hv : v.isFinite = false) :
    RefusedAs (Element.read (α := Scalar k)) (Element.write v)
      (.wrongType .null (.number k)) := by
  cases k with
  | f32 => exact refusedAs_writeFloat hv
  | f64 => exact refusedAs_writeFloat hv
  | _ => cases hk

end Json
end Slotted
