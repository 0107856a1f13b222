import Slotted.Proofs.Scalar

/-!
# Hashes stand for keys

The mixer takes turns between two kinds of steps.  To add the upper bits of a word to the lower ones
is undone by doing it again, as the shift is by more than half a word and so leaves the upper bits
alone.  A multiplication by an odd number is undone by the inverse of that number modulo `2 ^ 64`.
So the mixer can be run backwards, and two values have one hash only if they have one key.

## Main definitions

* `foldHigh` — a word with its upper bits added to its lower ones: the step between multiplications.
* `unmix` — the mixer backwards.
* `Scalar.Identified` — what a value can be told by.

## Main results

* `unmix_mix`, `mix_unmix` — nothing is lost in the mixer.
* `hashes_identify_keys` — the mixer is a bijection, and hashes are equal just for equal keys.
-/

namespace Slotted

/-! ### The mixer backwards -/

/-- The word with its upper bits added to its lower ones. -/
def foldHigh (w : UInt64) : UInt64 := w ^^^ (w >>> 33)

/-- Two shifts by more than half a word leave nothing. -/
theorem shiftRight_shiftRight_eq_zero (w : UInt64) : (w >>> 33) >>> 33 = 0 := by
  apply UInt64.toNat_inj.1
  have hlt : w.toNat < 2 ^ 64 := w.toNat_lt
  rw [UInt64.toNat_shiftRight, UInt64.toNat_shiftRight]
  show w.toNat >>> 33 >>> 33 = 0
  rw [← Nat.shiftRight_add, Nat.shiftRight_eq_div_pow]
  exact Nat.div_eq_of_lt (by omega)

@[simp] theorem foldHigh_foldHigh (w : UInt64) : foldHigh (foldHigh w) = w := by
  unfold foldHigh
  rw [UInt64.shiftRight_xor, shiftRight_shiftRight_eq_zero, UInt64.xor_zero, UInt64.xor_assoc,
    UInt64.xor_self, UInt64.xor_zero]

theorem mix_eq (w : UInt64) :
    mix w = foldHigh (foldHigh (foldHigh w * 0xff51afd7ed558ccd) * 0xc4ceb9fe1a85ec53) := rfl

/-- The mixer backwards: the factors are the inverses of those of `mix`. -/
def unmix (w : UInt64) : UInt64 :=
  foldHigh (foldHigh (foldHigh w * 0x9cb4b2f8129337db) * 0x4f74430c22a54005)

/-- A multiplication by a number that has an inverse can be undone. -/
theorem mul_mul_eq_self {c d : UInt64} (h : c * d = 1) (w : UInt64) : w * c * d = w := by
  rw [UInt64.mul_assoc, h, UInt64.mul_one]

@[simp] theorem unmix_mix (w : UInt64) : unmix (mix w) = w := by
  rw [unmix, mix_eq, foldHigh_foldHigh, mul_mul_eq_self (by decide), foldHigh_foldHigh,
    mul_mul_eq_self (by decide), foldHigh_foldHigh]

@[simp] theorem mix_unmix (w : UInt64) : mix (unmix w) = w := by
  rw [unmix, mix_eq, foldHigh_foldHigh, mul_mul_eq_self (by decide), foldHigh_foldHigh,
    mul_mul_eq_self (by decide), foldHigh_foldHigh]

theorem mix_injective : Function.Injective mix := Function.LeftInverse.injective unmix_mix

example : unmix (mix 0xfedcba9876543210) = 0xfedcba9876543210 := by decide

/-! ### Values, keys and hashes -/

namespace Scalar

variable {k : Kind}

theorem sameKey_eq_true_iff {v w : Scalar k} : v.sameKey w = true ↔ v.key = w.key := by
  simp [sameKey]

/-- Hashes are equal just for equal keys. -/
theorem hash_eq_hash_iff {v w : Scalar k} : v.hash = w.hash ↔ v.key = w.key :=
  mix_injective.eq_iff

/-- The key of an integer is its two's complement, and that of a character its code point. -/
theorem toNat_key (hk : k.isFloat = false) (v : Scalar k) :
    (v.key.toNat : ℤ) = v.toInt % (2 ^ (8 * k.width) : ℕ) := by
  rw [key_eq_bits hk, toInt_emod]

/-- What a value can be told by. -/
structure Identified (v : Scalar k) : Prop where
  /-- The values with the same hash are those that are one element with it. -/
  hash_eq_iff : ∀ w : Scalar k, v.hash = w.hash ↔ v.sameKey w = true
  /-- That is no other value, but that all NaNs are one element. -/
  sameKey_iff : ∀ w : Scalar k, v.sameKey w = true ↔ v = w ∨ v.isNaN = true ∧ w.isNaN = true
  /-- The key fits the width of the kind. -/
  key_lt : v.key.toNat < 2 ^ (8 * k.width)
  /-- For a kind that is not of floats it is the number, modulo the width. -/
  toNat_key : k.isFloat = false → (v.key.toNat : ℤ) = v.toInt % (2 ^ (8 * k.width) : ℕ)
  /-- The key is the pattern of a value, which is one element with this one. -/
  ofBits?_key : ∃ w : Scalar k, Scalar.ofBits? k v.key = some w ∧ w.sameKey v = true

end Scalar

/-- **Hashes identify keys.**  The mixer is a bijection on words, so that values of whatever kind
have one hash just if they are one element.  Their key fits the width of the kind, and a value that
is made of it is the same element again. -/
theorem hashes_identify_keys :
    Function.Bijective mix ∧ ∀ {k : Kind} (v : Scalar k), v.Identified := by
  refine ⟨⟨mix_injective, Function.RightInverse.surjective mix_unmix⟩, ?_⟩
  intro k v
  refine ⟨?_, ?_, ?_, fun hk => v.toNat_key hk, ?_⟩
  · intro w
    rw [Scalar.hash_eq_hash_iff, Scalar.sameKey_eq_true_iff]
  · intro w
    rw [Scalar.sameKey_eq_true_iff, Scalar.key_eq_key_iff]
  · rw [Nat.pow_mul]
    exact v.key_lt
  · obtain ⟨w, hw, hkey⟩ := v.exists_ofBits?_key
    exact ⟨w, hw, Scalar.sameKey_eq_true_iff.2 hkey⟩

end Slotted
