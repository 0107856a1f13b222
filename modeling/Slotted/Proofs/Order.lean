import Mathlib.Algebra.Order.Field.Power
import Mathlib.Algebra.Order.Field.Rat
import Mathlib.Data.Int.Cast.Lemmas
import Mathlib.Data.Int.ConditionallyCompleteOrder
import Mathlib.Order.Monotone.Odd
import Slotted.Proofs.Scalar

/-!
# The order of the values of a kind

The order of a kind compares bit patterns, integers by the number in two's complement and floats by
sign and magnitude.  It is the order of the numbers that the values stand for, in which an infinity
counts as the number that would come after the greatest.  A NaN is beside that order, and two values
that it does not tell apart are one element, or both zeros.

## Main definitions

* `BinaryFormat.value`, `Scalar.number` — the number of a pattern, and of a value.
* `Scalar.Tied` — values of which neither comes before the other.

## Main results

* `BinaryFormat.value_strictMono` — patterns count the numbers of a format upwards.
* `Scalar.lt_iff_number_lt` — the order of a kind is that of the numbers.
* `Scalar.lt_trans` — a strict order on all values, the NaNs included.
* `Scalar.tied_iff` — what `Tied` means for the order.
-/

namespace Slotted

variable {k : Kind}

/-! ### Patterns of floats -/

namespace BinaryFormat

variable {f : BinaryFormat} {m n : ℕ}

/-- The number with a given pattern. -/
def value (f : BinaryFormat) (bits : ℕ) : ℚ := (f.decode bits).1 * 2 ^ (f.decode bits).2

/-- The number with a given pattern, as a multiple of the least positive one. -/
def multiple (f : BinaryFormat) (bits : ℕ) : ℕ :=
  if bits / 2 ^ (f.precision - 1) = 0 then bits % 2 ^ (f.precision - 1)
  else (2 ^ (f.precision - 1) + bits % 2 ^ (f.precision - 1))
    * 2 ^ (bits / 2 ^ (f.precision - 1) - 1)

theorem value_eq_multiple (f : BinaryFormat) (bits : ℕ) :
    f.value bits = f.multiple bits * 2 ^ (-(f.denominator : ℤ)) := by
  unfold value multiple decode
  simp only [Nat.pow_eq]
  split
  · rfl
  · next hexp =>
    -- the exponent counts from one, so the power of two is a natural one
    obtain ⟨e, he⟩ := Nat.exists_eq_succ_of_ne_zero hexp
    rw [he, Nat.succ_sub_one, Nat.cast_mul, mul_assoc, Nat.cast_pow, Nat.cast_ofNat,
      ← zpow_natCast, ← zpow_add₀ two_ne_zero]
    congr 2
    omega

/-- A number is below the power of two that the next exponent starts with. -/
theorem multiple_lt (f : BinaryFormat) (bits : ℕ) :
    f.multiple bits < 2 ^ (f.precision - 1) * 2 ^ (bits / 2 ^ (f.precision - 1)) := by
  have hmod : bits % 2 ^ (f.precision - 1) < 2 ^ (f.precision - 1) :=
    Nat.mod_lt _ (Nat.two_pow_pos _)
  unfold multiple
  split
  · next hexp =>
    rw [hexp]
    simpa using hmod
  · next hexp =>
    obtain ⟨e, he⟩ := Nat.exists_eq_succ_of_ne_zero hexp
    rw [he, Nat.succ_sub_one, Nat.pow_succ, ← mul_assoc, mul_right_comm]
    apply Nat.mul_lt_mul_of_pos_right _ (Nat.two_pow_pos e)
    omega

theorem multiple_strictMono (f : BinaryFormat) : StrictMono f.multiple := by
  intro m n hmn
  have hexp : m / 2 ^ (f.precision - 1) ≤ n / 2 ^ (f.precision - 1) :=
    Nat.div_le_div_right hmn.le
  rcases hexp.lt_or_eq with hlt | heq
  · -- exponents differ, and a power of two lies between the numbers
    apply (f.multiple_lt m).trans_le
    unfold multiple
    rw [if_neg (Nat.ne_zero_of_lt hlt)]
    apply Nat.mul_le_mul (Nat.le_add_right _ _)
    exact Nat.pow_le_pow_right (by decide) (Nat.le_sub_one_of_lt hlt)
  · have hmod : m % 2 ^ (f.precision - 1) < n % 2 ^ (f.precision - 1) := by
      have hm := Nat.div_add_mod m (2 ^ (f.precision - 1))
      have hn := Nat.div_add_mod n (2 ^ (f.precision - 1))
      rw [heq] at hm
      omega
    unfold multiple
    rw [heq]
    split
    · exact hmod
    · exact Nat.mul_lt_mul_of_pos_right (by omega) (Nat.two_pow_pos _)

/-- **Patterns count the numbers of a format upwards.** -/
theorem value_strictMono (f : BinaryFormat) : StrictMono f.value := by
  intro m n hmn
  rw [value_eq_multiple, value_eq_multiple]
  apply mul_lt_mul_of_pos_right _ (zpow_pos two_pos _)
  exact_mod_cast f.multiple_strictMono hmn

theorem value_zero (f : BinaryFormat) : f.value 0 = 0 := by
  simp [value_eq_multiple, multiple]

/-- The number with a given pattern and a sign in front of it. -/
def signedValue (f : BinaryFormat) (r : ℤ) : ℚ := r.sign * f.value r.natAbs

theorem signedValue_natCast (f : BinaryFormat) (n : ℕ) : f.signedValue n = f.value n := by
  cases n with
  | zero => simp [signedValue, value_zero]
  | succ n => rw [signedValue, Int.natAbs_natCast, Int.sign_natCast_of_ne_zero n.succ_ne_zero,
      Int.cast_one, one_mul]

theorem signedValue_neg (f : BinaryFormat) (r : ℤ) : f.signedValue (-r) = -f.signedValue r := by
  simp [signedValue]

theorem signedValue_strictMono (f : BinaryFormat) : StrictMono f.signedValue := by
  apply strictMono_of_odd_strictMonoOn_nonneg f.signedValue_neg
  intro r hr s hs hrs
  lift r to ℕ using hr
  lift s to ℕ using hs
  rw [signedValue_natCast, signedValue_natCast]
  exact f.value_strictMono (Nat.cast_lt.1 hrs)

end BinaryFormat

theorem Kind.exists_format?_eq (hk : k.isFloat = true) : ∃ f, k.format? = some f := by
  cases k with
  | f32 => exact ⟨_, rfl⟩
  | f64 => exact ⟨_, rfl⟩
  | _ => exact absurd hk (by decide)

theorem Kind.format?_eq_none (hk : k.isFloat = false) : k.format? = none := by
  cases k with
  | f32 => exact absurd hk (by decide)
  | f64 => exact absurd hk (by decide)
  | _ => rfl

namespace Scalar

variable {v w x : Scalar k} {f : BinaryFormat}

/-! ### The numbers that values stand for -/

/-- The number that a value stands for.  Only a NaN stands for none, and is not asked for it. -/
def number (v : Scalar k) : ℚ :=
  match k.format? with
  | none => v.toInt
  | some f =>
    if v.isNegative then -f.value v.magnitude.toNat else f.value v.magnitude.toNat

/-- The pattern of a float with its sign in front of it. -/
def signedMagnitude (v : Scalar k) : ℤ :=
  if v.isNegative then -(v.magnitude.toNat : ℤ) else v.magnitude.toNat

theorem number_eq_toInt (hk : k.isFloat = false) (v : Scalar k) : v.number = v.toInt := by
  unfold number
  rw [Kind.format?_eq_none hk]

theorem number_eq_signedValue (hf : k.format? = some f) (v : Scalar k) :
    v.number = f.signedValue v.signedMagnitude := by
  unfold number signedMagnitude
  rw [hf]
  simp only
  split
  · rw [f.signedValue_neg, f.signedValue_natCast]
  · rw [f.signedValue_natCast]

theorem toInt_injective : Function.Injective (toInt : Scalar k → ℤ) := by
  intro v w h
  have hv := v.ofInt?_toInt
  rw [h, w.ofInt?_toInt] at hv
  exact (Option.some.inj hv).symm

theorem bits_eq_of_isNegative (h : v.isNegative = true) :
    v.bits.toNat = v.magnitude.toNat + (signWeight k).toNat := by
  have hge : (signWeight k).toNat ≤ v.bits.toNat := of_decide_eq_true h
  have hlt := v.bits_lt
  rw [pow_width_eq, ← toNat_signWeight] at hlt
  rw [magnitude, UInt64.toNat_mod, Nat.mod_eq_sub_mod hge, Nat.mod_eq_of_lt (by omega)]
  omega

theorem bits_eq_of_not_isNegative (h : v.isNegative = false) :
    v.bits.toNat = v.magnitude.toNat := by
  have hlt : v.bits.toNat < (signWeight k).toNat := UInt64.not_le.1 (of_decide_eq_false h)
  rw [magnitude, UInt64.toNat_mod, Nat.mod_eq_of_lt hlt]

/-- Sign and magnitude are all there is to a pattern, but that zero has both signs. -/
theorem eq_of_signedMagnitude_eq (h : v.signedMagnitude = w.signedMagnitude)
    (hzero : v.magnitude ≠ 0) : v = w := by
  have hpos : v.magnitude.toNat ≠ 0 := fun h0 => hzero (UInt64.toNat_inj.1 h0)
  apply Scalar.ext
  apply UInt64.toNat_inj.1
  unfold signedMagnitude at h
  cases hv : v.isNegative <;> cases hw : w.isNegative <;> simp only [hv, hw] at h
  · rw [bits_eq_of_not_isNegative hv, bits_eq_of_not_isNegative hw]
    simpa using h
  · simp at h
    omega
  · simp at h
    omega
  · rw [bits_eq_of_isNegative hv, bits_eq_of_isNegative hw]
    simpa using h

/-! ### The order -/

theorem rank?_eq_none (h : v.isNaN = true) : v.rank? = none := by simp [rank?, h]

theorem rank?_eq_toInt (hk : k.isFloat = false) (v : Scalar k) : v.rank? = some v.toInt := by
  simp [rank?, isNaN_eq_false hk, hk]

theorem rank?_eq_signedMagnitude (hk : k.isFloat = true) (h : v.isNaN = false) :
    v.rank? = some v.signedMagnitude := by
  simp [rank?, h, hk, signedMagnitude]

theorem lt_iff_rank : v.lt w = true ↔ ∃ a b, v.rank? = some a ∧ w.rank? = some b ∧ a < b := by
  unfold lt
  cases v.rank? <;> cases w.rank? <;> simp

/-- **The order of a kind is that of the numbers.** -/
theorem lt_iff_number_lt (hv : v.isNaN = false) (hw : w.isNaN = false) :
    v.lt w = true ↔ v.number < w.number := by
  rw [lt_iff_rank]
  cases hk : k.isFloat with
  | false =>
    rw [rank?_eq_toInt hk, rank?_eq_toInt hk, number_eq_toInt hk, number_eq_toInt hk]
    simp
  | true =>
    obtain ⟨f, hf⟩ := Kind.exists_format?_eq hk
    rw [rank?_eq_signedMagnitude hk hv, rank?_eq_signedMagnitude hk hw,
      number_eq_signedValue hf, number_eq_signedValue hf, f.signedValue_strictMono.lt_iff_lt]
    simp

/-- It is a strict order on all values, the NaNs included. -/
theorem lt_trans (hvw : v.lt w = true) (hwx : w.lt x = true) : v.lt x = true := by
  obtain ⟨a, b, ha, hb, hab⟩ := lt_iff_rank.1 hvw
  obtain ⟨b', c, hb', hc, hbc⟩ := lt_iff_rank.1 hwx
  rw [hb] at hb'
  cases hb'
  exact lt_iff_rank.2 ⟨a, c, ha, hc, hab.trans hbc⟩

theorem lt_of_isNaN_left (h : v.isNaN = true) (w : Scalar k) : v.lt w = false := by
  simp [lt, rank?_eq_none h]

theorem lt_of_isNaN_right (v : Scalar k) (h : w.isNaN = true) : v.lt w = false := by
  simp [lt, rank?_eq_none h]

/-- The order sees values as elements. -/
theorem lt_congr_left (h : v.key = w.key) (x : Scalar k) : v.lt x = w.lt x := by
  rcases key_eq_key_iff.1 h with rfl | ⟨hv, hw⟩
  · rfl
  · rw [lt_of_isNaN_left hv, lt_of_isNaN_left hw]

theorem lt_congr_right (h : v.key = w.key) (x : Scalar k) : x.lt v = x.lt w := by
  rcases key_eq_key_iff.1 h with rfl | ⟨hv, hw⟩
  · rfl
  · rw [lt_of_isNaN_right x hv, lt_of_isNaN_right x hw]

/-! ### Values that the order does not tell apart -/

/-- Neither of two values comes before the other: they are one element, or one of them is a NaN, or
both are zeros. -/
def Tied (v w : Scalar k) : Prop :=
  v.key = w.key ∨ v.isNaN = true ∨ w.isNaN = true ∨
    k.isFloat = true ∧ v.magnitude = 0 ∧ w.magnitude = 0

theorem signedMagnitude_eq_zero_iff : v.signedMagnitude = 0 ↔ v.magnitude = 0 := by
  have hmag : v.magnitude.toNat = 0 ↔ v.magnitude = 0 := by
    rw [← UInt64.toNat_inj, UInt64.toNat_zero]
  unfold signedMagnitude
  split
  · rw [neg_eq_zero, Nat.cast_eq_zero, hmag]
  · rw [Nat.cast_eq_zero, hmag]

theorem number_eq_zero (hk : k.isFloat = true) (h : v.magnitude = 0) : v.number = 0 := by
  obtain ⟨f, hf⟩ := Kind.exists_format?_eq hk
  rw [number_eq_signedValue hf, signedMagnitude_eq_zero_iff.2 h]
  exact (f.signedValue_natCast 0).trans f.value_zero

/-- Values that stand for one number are one element, or both zeros. -/
theorem tied_of_number_eq (h : v.number = w.number) : v.Tied w := by
  cases hk : k.isFloat with
  | false =>
    rw [number_eq_toInt hk, number_eq_toInt hk, Int.cast_inj] at h
    exact Or.inl (congrArg key (toInt_injective h))
  | true =>
    obtain ⟨f, hf⟩ := Kind.exists_format?_eq hk
    rw [number_eq_signedValue hf, number_eq_signedValue hf] at h
    have hsigned := f.signedValue_strictMono.injective h
    by_cases hzero : v.magnitude = 0
    · have hw : w.magnitude = 0 := by
        rw [← signedMagnitude_eq_zero_iff, ← hsigned, signedMagnitude_eq_zero_iff, hzero]
      exact Or.inr (Or.inr (Or.inr ⟨hk, hzero, hw⟩))
    · exact Or.inl (congrArg key (eq_of_signedMagnitude_eq hsigned hzero))

theorem tied_iff : v.Tied w ↔ v.lt w = false ∧ w.lt v = false := by
  cases hv : v.isNaN with
  | true => exact iff_of_true (Or.inr (Or.inl hv)) ⟨lt_of_isNaN_left hv w, lt_of_isNaN_right w hv⟩
  | false =>
    cases hw : w.isNaN with
    | true =>
      exact iff_of_true (Or.inr (Or.inr (Or.inl hw)))
        ⟨lt_of_isNaN_right v hw, lt_of_isNaN_left hw v⟩
    | false =>
      rw [← Bool.not_eq_true, ← Bool.not_eq_true, lt_iff_number_lt hv hw, lt_iff_number_lt hw hv,
        not_lt, not_lt]
      constructor
      · rintro (hkey | hnan | hnan | ⟨hk, hv0, hw0⟩)
        · rw [key_of_not_isNaN hv, key_of_not_isNaN hw] at hkey
          rw [Scalar.ext hkey]
          exact ⟨le_rfl, le_rfl⟩
        · exact absurd (hv.symm.trans hnan) (by decide)
        · exact absurd (hw.symm.trans hnan) (by decide)
        · rw [number_eq_zero hk hv0, number_eq_zero hk hw0]
          exact ⟨le_rfl, le_rfl⟩
      · rintro ⟨hge, hle⟩
        exact tied_of_number_eq (le_antisymm hle hge)

end Scalar

end Slotted
