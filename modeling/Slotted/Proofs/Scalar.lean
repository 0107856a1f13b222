import Mathlib.Algebra.Order.Ring.Nat
import Slotted.Text.Display

/-!
# Keys and numbers of scalars

## Main results

* `Scalar.key_eq_key_iff` — all NaNs have one key, and any two other values have two.
* `Scalar.exists_ofBits?_key` — a key is the bit pattern of a value, which has that key again.
* `Scalar.key_lt` — a key fits the width of the kind.
* `Scalar.ofInt?_toInt` — a number gives back the value that stands for it.
-/

namespace Slotted

variable {k : Kind}

theorem Kind.holds_lt {bits : UInt64} (h : k.Holds bits) : bits.toNat < 256 ^ k.width := by
  have hpow : 256 ^ k.width = 2 ^ (8 * k.width) := by rw [Nat.pow_mul]
  rw [hpow]
  cases k with
  | char =>
    -- code points end far below the width, which is that of a word
    have hvalid : bits.toNat.isValidChar := h
    have hchar : bits.toNat < 0x110000 := by
      rcases hvalid with hlow | ⟨-, hhigh⟩
      · omega
      · exact hhigh
    exact lt_trans hchar (by decide)
  | _ => exact h

namespace Scalar

variable {v w : Scalar k}

/-- Outside the float kinds a key stands for one value. -/
theorem key_injective (hk : k.isFloat = false) :
    Function.Injective (key : Scalar k → UInt64) := by
  intro v w hkey
  rw [key_eq_bits hk, key_eq_bits hk] at hkey
  exact Scalar.ext hkey

theorem isFloat_of_isNaN (h : v.isNaN = true) : k.isFloat = true := by
  rw [isNaN, Bool.and_eq_true] at h
  exact h.1

theorem isNaN_of_bits_eq (hk : k.isFloat = true) (h : w.bits = canonicalNaN k) :
    w.isNaN = true := by
  have hnan : infinityBits k < canonicalNaN k % signWeight k := by
    cases k with
    | f32 => decide
    | f64 => decide
    | _ => exact absurd hk (by decide)
  rw [isNaN, hk, magnitude, h]
  simpa using hnan

theorem key_of_isNaN (h : v.isNaN = true) : v.key = canonicalNaN k := by rw [key, if_pos h]

theorem key_of_not_isNaN (h : v.isNaN = false) : v.key = v.bits := by
  rw [key, if_neg (by rw [h]; exact Bool.false_ne_true)]

/-- Two values are one element when they are the same, or when both are NaN. -/
theorem key_eq_key_iff : v.key = w.key ↔ v = w ∨ v.isNaN = true ∧ w.isNaN = true := by
  constructor
  · intro h
    cases hv : v.isNaN with
    | true =>
      -- the key of a NaN is a NaN, so no other value has it
      refine Or.inr ⟨rfl, ?_⟩
      by_contra hw
      rw [key_of_isNaN hv, key_of_not_isNaN (Bool.eq_false_iff.2 hw)] at h
      exact hw (isNaN_of_bits_eq (isFloat_of_isNaN hv) h.symm)
    | false =>
      cases hw : w.isNaN with
      | true =>
        rw [key_of_not_isNaN hv, key_of_isNaN hw] at h
        exact absurd (isNaN_of_bits_eq (isFloat_of_isNaN hw) h) (by rw [hv]; decide)
      | false =>
        rw [key_of_not_isNaN hv, key_of_not_isNaN hw] at h
        exact Or.inl (ext h)
  · rintro (rfl | ⟨hv, hw⟩)
    · rfl
    · rw [key_of_isNaN hv, key_of_isNaN hw]

example :
    (⟨0, by decide⟩ : Scalar .f64).key ≠ (⟨0x8000000000000000, by decide⟩ : Scalar .f64).key := by
  decide

/-- The key is a pattern of the kind, and the value that it is has the same key. -/
theorem exists_bits_eq_key (v : Scalar k) : ∃ w : Scalar k, w.bits = v.key ∧ w.key = v.key := by
  cases hv : v.isNaN with
  | true =>
    have hk := isFloat_of_isNaN hv
    have hholds : k.Holds (canonicalNaN k) := by
      cases k with
      | f32 => decide
      | f64 => decide
      | _ => exact absurd hk (by decide)
    have hnan : (⟨canonicalNaN k, hholds⟩ : Scalar k).isNaN = true := isNaN_of_bits_eq hk rfl
    exact ⟨⟨canonicalNaN k, hholds⟩, (key_of_isNaN hv).symm,
      (key_of_isNaN hnan).trans (key_of_isNaN hv).symm⟩
  | false => exact ⟨v, (key_of_not_isNaN hv).symm, rfl⟩

theorem exists_ofBits?_key (v : Scalar k) :
    ∃ w, ofBits? k v.key = some w ∧ w.key = v.key := by
  obtain ⟨w, hbits, hkey⟩ := exists_bits_eq_key v
  refine ⟨w, ?_, hkey⟩
  rw [← hbits, ofBits?_bits]

theorem key_lt (v : Scalar k) : v.key.toNat < 256 ^ k.width := by
  obtain ⟨w, hbits, -⟩ := exists_bits_eq_key v
  rw [← hbits]
  exact Kind.holds_lt w.holds

/-! ### Numbers -/

theorem pow_width_eq (k : Kind) : 2 ^ (8 * k.width) = 2 * 2 ^ (8 * k.width - 1) := by
  cases k <;> rfl

theorem toNat_signWeight (k : Kind) : (signWeight k).toNat = 2 ^ (8 * k.width - 1) := by
  cases k <;> rfl

theorem bits_lt (v : Scalar k) : v.bits.toNat < 2 ^ (8 * k.width) := by
  have hlt := Kind.holds_lt v.holds
  rwa [Nat.pow_mul]

/-- The upper half of the patterns of a kind with sign stands for the negative numbers. -/
theorem toInt_cases (v : Scalar k) :
    (k.isSigned = true ∧ 2 ^ (8 * k.width - 1) ≤ v.bits.toNat ∧
      v.toInt = v.bits.toNat - (2 ^ (8 * k.width) : ℕ)) ∨
    ((k.isSigned = true → v.bits.toNat < 2 ^ (8 * k.width - 1)) ∧ v.toInt = v.bits.toNat) := by
  rw [toInt, ← toNat_signWeight]
  cases hsigned : k.isSigned with
  | false => exact Or.inr ⟨fun h => absurd h (by decide), rfl⟩
  | true =>
    rcases Nat.lt_or_ge v.bits.toNat (signWeight k).toNat with hlt | hge
    · have hneg : v.isNegative = false := decide_eq_false (UInt64.not_le.2 hlt)
      rw [hneg]
      exact Or.inr ⟨fun _ => hlt, rfl⟩
    · have hneg : v.isNegative = true := decide_eq_true hge
      rw [hneg]
      exact Or.inl ⟨rfl, hge, rfl⟩

theorem toInt_bounds (v : Scalar k) : minInt k ≤ v.toInt ∧ v.toInt ≤ maxInt k := by
  have hpow := pow_width_eq k
  have hlt := v.bits_lt
  have hmin : minInt k = if k.isSigned then -((2 ^ (8 * k.width - 1) : ℕ) : ℤ) else 0 := rfl
  have hmax : maxInt k = if k.isSigned then ((2 ^ (8 * k.width - 1) : ℕ) : ℤ) - 1
      else ((2 ^ (8 * k.width) : ℕ) : ℤ) - 1 := rfl
  rcases v.toInt_cases with ⟨hsigned, hge, heq⟩ | ⟨hlow, heq⟩
  · rw [if_pos hsigned] at hmin hmax
    omega
  · cases hsigned : k.isSigned with
    | true =>
      have hbits := hlow hsigned
      rw [if_pos hsigned] at hmin hmax
      omega
    | false =>
      rw [if_neg (Bool.eq_false_iff.1 hsigned)] at hmin hmax
      omega

/-- The numbers of all kinds are machine words, signed or unsigned. -/
theorem toInt_word (v : Scalar k) :
    -0x8000000000000000 ≤ v.toInt ∧ v.toInt ≤ 0xffffffffffffffff := by
  have hbounds : -0x8000000000000000 ≤ minInt k ∧ maxInt k ≤ 0xffffffffffffffff := by
    cases k <;> decide
  exact ⟨hbounds.1.trans v.toInt_bounds.1, v.toInt_bounds.2.trans hbounds.2⟩

theorem toInt_emod (v : Scalar k) : v.toInt % (2 ^ (8 * k.width) : ℕ) = v.bits.toNat := by
  have hlt := v.bits_lt
  have hmod : (v.bits.toNat : ℤ) % (2 ^ (8 * k.width) : ℕ) = v.bits.toNat :=
    Int.emod_eq_of_lt (by omega) (by exact_mod_cast hlt)
  rcases v.toInt_cases with ⟨-, -, heq⟩ | ⟨-, heq⟩
  · rw [heq, Int.sub_emod_right, hmod]
  · rw [heq, hmod]

/-- A number gives back the value that stands for it. -/
theorem ofInt?_toInt (v : Scalar k) : ofInt? k v.toInt = some v := by
  have hbits : UInt64.ofNat (v.toInt % Nat.pow 2 (8 * k.width)).toNat = v.bits := by
    have hmod : v.toInt % Nat.pow 2 (8 * k.width) = v.bits.toNat := v.toInt_emod
    rw [hmod, Int.toNat_natCast, UInt64.ofNat_toNat]
  rw [ofInt?, if_pos v.toInt_bounds]
  simp only [hbits, dif_pos v.holds]

@[simp] theorem ofChar_toChar (v : Scalar .char) : ofChar v.toChar = v := by
  have hlt : v.bits.toNat < 2 ^ 32 := v.bits_lt
  refine Scalar.ext (UInt64.toNat_inj.1 ?_)
  show v.bits.toUInt32.toUInt64.toNat = v.bits.toNat
  rw [UInt32.toNat_toUInt64, UInt64.toNat_toUInt32, Nat.mod_eq_of_lt hlt]

end Scalar

end Slotted
