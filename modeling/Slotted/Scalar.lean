import Slotted.Kind

/-!
# Scalars: values as bit patterns

A scalar is the bit pattern of a value of its kind, zero-extended to 64 bits.  Two scalars are *the
same element* of a container when their **keys** agree.  The key is the bit pattern itself, except
that every NaN has one key; so equality of keys is reflexive, `0.0` and `-0.0` are two elements, and
a NaN can be looked up again.  A stored NaN keeps its own sign and payload.

## Main definitions

* `Kind.Holds` — the bit patterns that are values of a kind.
* `Scalar` — a bit pattern together with the fact that its kind holds it.
* `Scalar.ofBits?` — the value with given bits; integers and floats drop high bits.
* `Scalar.key` — the canonical bit pattern; `Scalar.sameKey` compares it.
* `Scalar.toInt` — the number an integer or character stands for.
* `Scalar.rank?` and `Scalar.lt` — the order of the kind; a NaN is not comparable.
* `mix`, `Scalar.hash` — the 64-bit hash of a key.

## Main results

* `Scalar.ofBits?_bits` — the bits of a value give the value back.
* `Scalar.hash_eq_of_key_eq` — the hash reads the key only.
-/

namespace Slotted

/-! ### Which bit patterns are values -/

/-- Every pattern of the kind's width is a value, but for characters: surrogates and numbers past
the last code point are not. -/
def Kind.Holds (k : Kind) (bits : UInt64) : Prop :=
  match k with
  | .char => bits.toNat.isValidChar
  | k => bits.toNat < Nat.pow 2 (8 * k.width)

instance (k : Kind) (bits : UInt64) : Decidable (k.Holds bits) := by
  cases k <;> unfold Kind.Holds <;> infer_instance

/-- The low bits that fit the kind's width; a character's bits are taken whole. -/
def Kind.wrap (k : Kind) (bits : UInt64) : UInt64 :=
  match k with
  | .char => bits
  | k => UInt64.ofNat (bits.toNat % Nat.pow 2 (8 * k.width))

/-- A value of kind `k`, as its bit pattern. -/
structure Scalar (k : Kind) where
  /-- The pattern, zero-extended. -/
  bits : UInt64
  /-- The pattern is a value of the kind. -/
  holds : k.Holds bits
  deriving DecidableEq

namespace Scalar

variable {k : Kind}

/-- The value with the given bits: integers and floats wrap to their width, and a number that is no
character gives none. -/
def ofBits? (k : Kind) (bits : UInt64) : Option (Scalar k) :=
  if h : k.Holds (k.wrap bits) then some ⟨k.wrap bits, h⟩ else none

theorem holds_zero (k : Kind) : k.Holds 0 := by cases k <;> decide

instance : Inhabited (Scalar k) := ⟨⟨0, holds_zero k⟩⟩

@[ext] theorem ext {v w : Scalar k} (h : v.bits = w.bits) : v = w := by
  cases v; cases w; cases h; rfl

theorem wrap_bits (v : Scalar k) : k.wrap v.bits = v.bits := by
  obtain ⟨b, h⟩ := v
  cases k <;> simp only [Kind.Holds, Kind.wrap] at h ⊢ <;>
    (try rw [Nat.mod_eq_of_lt h, UInt64.ofNat_toNat])

/-- The bits of a value give the value back. -/
@[simp] theorem ofBits?_bits (v : Scalar k) : ofBits? k v.bits = some v := by
  have h : k.Holds (k.wrap v.bits) := by rw [wrap_bits]; exact v.holds
  rw [ofBits?, dif_pos h]
  exact congrArg some (ext (wrap_bits v))

/-! ### Keys -/

/-- The pattern of positive infinity, which bounds the magnitudes of numbers from above. -/
def infinityBits : Kind → UInt64
  | .f32 => 0x7f800000
  | .f64 => 0x7ff0000000000000
  | _ => 0

/-- The pattern that stands for every NaN of the kind. -/
def canonicalNaN : Kind → UInt64
  | .f32 => 0x7fc00000
  | .f64 => 0x7ff8000000000000
  | _ => 0

/-- The weight of the sign bit. -/
def signWeight (k : Kind) : UInt64 := UInt64.ofNat (Nat.pow 2 (8 * k.width - 1))

/-- The pattern without the sign bit. -/
def magnitude (v : Scalar k) : UInt64 := v.bits % signWeight k

/-- The sign bit is set. -/
def isNegative (v : Scalar k) : Bool := signWeight k ≤ v.bits

/-- The value is a float that is not a number. -/
def isNaN (v : Scalar k) : Bool := k.isFloat && infinityBits k < v.magnitude

/-- The value is a float, and neither infinite nor a NaN. -/
def isFinite (v : Scalar k) : Bool := k.isFloat && v.magnitude < infinityBits k

/-- The canonical bit pattern, by which containers compare and hash values. -/
def key (v : Scalar k) : UInt64 := if v.isNaN then canonicalNaN k else v.bits

/-- Two values are one element of a container. -/
def sameKey (v w : Scalar k) : Bool := v.key == w.key

theorem isNaN_eq_false (hk : k.isFloat = false) (v : Scalar k) : v.isNaN = false := by
  simp [isNaN, hk]

/-- Outside the float kinds the key is the bit pattern. -/
theorem key_eq_bits (hk : k.isFloat = false) (v : Scalar k) : v.key = v.bits := by
  simp [key, isNaN_eq_false hk]

/-! ### Numbers and order -/

/-- The number that an integer, or the code point that a character, stands for. -/
def toInt (v : Scalar k) : Int :=
  if k.isSigned && v.isNegative then (v.bits.toNat : Int) - Nat.pow 2 (8 * k.width)
  else v.bits.toNat

/-- The least number of an integer kind. -/
def minInt (k : Kind) : Int := if k.isSigned then -Nat.pow 2 (8 * k.width - 1) else 0

/-- The greatest number of an integer kind. -/
def maxInt (k : Kind) : Int :=
  if k.isSigned then (Nat.pow 2 (8 * k.width - 1) : Int) - 1
  else (Nat.pow 2 (8 * k.width) : Int) - 1

/-- The value of an integer kind that stands for `n`, or the character with code point `n`. -/
def ofInt? (k : Kind) (n : Int) : Option (Scalar k) :=
  if minInt k ≤ n ∧ n ≤ maxInt k then
    let bits := UInt64.ofNat (n % Nat.pow 2 (8 * k.width)).toNat
    if h : k.Holds bits then some ⟨bits, h⟩ else none
  else none

/-- The place of a value in the order of its kind.  Floats are ordered by sign and magnitude, which
puts both zeros in one place; a NaN has none. -/
def rank? (v : Scalar k) : Option Int :=
  if v.isNaN then none
  else if k.isFloat then
    some (if v.isNegative then -(v.magnitude.toNat : Int) else v.magnitude.toNat)
  else some v.toInt

/-- The value `v` comes before `w`.  Never true of a NaN. -/
def lt (v w : Scalar k) : Bool :=
  match v.rank?, w.rank? with
  | some a, some b => a < b
  | _, _ => false

theorem lt_irrefl (v : Scalar k) : v.lt v = false := by
  unfold lt
  cases v.rank? <;> simp

/-! ### Hashing -/

end Scalar

/-- Spreads the entropy of a word over all its bits: two multiplications between shifts.  Slot
positions are read off the low bits, so the high ones must reach them. -/
def mix (k : UInt64) : UInt64 :=
  let k := k ^^^ (k >>> 33)
  let k := k * 0xff51afd7ed558ccd
  let k := k ^^^ (k >>> 33)
  let k := k * 0xc4ceb9fe1a85ec53
  k ^^^ (k >>> 33)

namespace Scalar

variable {k : Kind}

/-- The hash of a value, from its key. -/
def hash (v : Scalar k) : UInt64 := mix v.key

theorem hash_eq_of_key_eq {v w : Scalar k} (h : v.key = w.key) : v.hash = w.hash := by
  rw [hash, hash, h]

end Scalar

end Slotted
