import Mathlib.Data.Int.Log
import Mathlib.Data.Rat.Floor
import Mathlib.Tactic.FieldSimp
import Mathlib.Tactic.Linarith
import Slotted.Proofs.Order

/-!
# What rounds to a number of a binary format

The numbers that round to a number `m * 2 ^ q` of a format are those at most half a unit of `m` away
from it, but only a quarter below it where the numbers below are twice as dense; those at the ends
round to it if `m` is even.  `BinaryFormat.nearest` finds the number from any fraction between these
ends.  Only one that is below a power of two where the numbers become denser has another exponent
than the number it rounds to, and is carried over to it.

## Main definitions

* `Within` — a number between two ends, which may belong to it.
* `BinaryFormat.Splits` — a pattern as a significand and an exponent.
* `BinaryFormat.Rounds` — a number rounds to the one with a given pattern.
* `BinaryFormat.Proper` — what the constants of a format have to do with each other.

## Main results

* `roundHalfEven_eq` — the integer that a fraction rounds to.
* `BinaryFormat.nearest_of_rounds` — the nearest number is the one that a fraction rounds to.
* `BinaryFormat.ofDecimal_of_rounds` — so it is for a decimal, which is never out of reach then.
-/

namespace Slotted

/-! ### Between two ends -/

/-- The number `x` lies between two ends, and at an end only if they are `closed`. -/
def Within (closed : Bool) (low high x : ℚ) : Prop :=
  if closed then low ≤ x ∧ x ≤ high else low < x ∧ x < high

section Within

variable {closed : Bool} {low high low' high' x s : ℚ}

theorem Within.le (h : Within closed low high x) : low ≤ x ∧ x ≤ high := by
  unfold Within at h
  split at h
  · exact h
  · exact ⟨h.1.le, h.2.le⟩

theorem Within.mono (h : Within closed low high x) (hlow : low' ≤ low) (hhigh : high ≤ high') :
    Within closed low' high' x := by
  unfold Within at h ⊢
  split
  · next hclosed =>
    rw [if_pos hclosed] at h
    exact ⟨hlow.trans h.1, h.2.trans hhigh⟩
  · next hopen =>
    rw [if_neg hopen] at h
    exact ⟨hlow.trans_lt h.1, h.2.trans_le hhigh⟩

theorem within_of_lt (hlow : low < x) (hhigh : x < high) : Within closed low high x := by
  unfold Within
  split
  · exact ⟨hlow.le, hhigh.le⟩
  · exact ⟨hlow, hhigh⟩

/-- Ends and number may be scaled alike. -/
theorem within_mul_iff (hs : 0 < s) :
    Within closed (low * s) (high * s) (x * s) ↔ Within closed low high x := by
  unfold Within
  simp only [mul_le_mul_iff_of_pos_right hs, mul_lt_mul_iff_of_pos_right hs]

end Within

/-! ### Rounding to an integer -/

/-- The distances of a fraction and an integer, as multiples of half the denominator. -/
theorem roundHalfEven_of_bounds {num den n : ℕ} (hden : 0 < den)
    (hlow : 2 * (n * den) ≤ 2 * num + den) (hhigh : 2 * num ≤ 2 * (n * den) + den)
    (htie : n % 2 = 0 ∨ 2 * (n * den) < 2 * num + den ∧ 2 * num < 2 * (n * den) + den) :
    roundHalfEven num den = n := by
  have hsplit := Nat.div_add_mod num den
  have hrem := Nat.mod_lt num hden
  rw [Nat.mul_comm den] at hsplit
  unfold roundHalfEven
  generalize num / den = q at hsplit ⊢
  generalize num % den = r at hsplit hrem ⊢
  dsimp only
  -- it is the quotient or the integer above it
  have hle : q ≤ n := by
    by_contra hlt
    have hmul := Nat.mul_le_mul_right den (show n + 1 ≤ q by omega)
    rw [Nat.add_mul] at hmul
    omega
  have hge : n ≤ q + 1 := by
    by_contra hlt
    have hmul := Nat.mul_le_mul_right den (show q + 2 ≤ n by omega)
    rw [Nat.add_mul] at hmul
    omega
  obtain rfl | rfl : n = q ∨ n = q + 1 := by omega
  · split_ifs <;> omega
  · rw [Nat.add_mul] at hlow hhigh htie
    split_ifs <;> omega

/-- A fraction at most one half from an integer rounds to it, on a tie only if it is even. -/
theorem roundHalfEven_eq {num den n : ℕ} (hden : 0 < den)
    (h : Within (n % 2 == 0) (n - 1 / 2) (n + 1 / 2) (num / den)) : roundHalfEven num den = n := by
  have hdenQ : (0 : ℚ) < den := Nat.cast_pos.2 hden
  obtain ⟨hlow, hhigh⟩ := h.le
  rw [le_div_iff₀ hdenQ] at hlow
  rw [div_le_iff₀ hdenQ] at hhigh
  apply roundHalfEven_of_bounds hden
  · have hdouble : (2 * (n * den) : ℚ) ≤ 2 * num + den := by linarith
    exact_mod_cast hdouble
  · have hdouble : (2 * num : ℚ) ≤ 2 * (n * den) + den := by linarith
    exact_mod_cast hdouble
  · by_cases heven : n % 2 = 0
    · exact Or.inl heven
    · right
      unfold Within at h
      rw [if_neg (by simpa using heven), lt_div_iff₀ hdenQ, div_lt_iff₀ hdenQ] at h
      constructor
      · have hdouble : (2 * (n * den) : ℚ) < 2 * num + den := by linarith
        exact_mod_cast hdouble
      · have hdouble : (2 * num : ℚ) < 2 * (n * den) + den := by linarith
        exact_mod_cast hdouble

/-! ### Powers with an integer exponent -/

theorem zpow_eq_div (b : ℚ) (hb : b ≠ 0) (z : ℤ) : b ^ z = b ^ z.toNat / b ^ (-z).toNat := by
  rw [eq_div_iff (pow_ne_zero _ hb), ← zpow_natCast, ← zpow_natCast, ← zpow_add₀ hb]
  congr 1
  omega

namespace BinaryFormat

variable {f : BinaryFormat} {bits m e num den : ℕ} {x : ℚ}

/-! ### Patterns -/

/-- The pattern stands for `m * 2 ^ (e - denominator)`, where the leading bit of the significand is
missing only if the exponent is the least one. -/
structure Splits (f : BinaryFormat) (bits m e : ℕ) : Prop where
  /-- That is what the pattern is taken for. -/
  decode : f.decode bits = (m, (e : ℤ) - f.denominator)
  /-- It is the pattern made of them. -/
  encode : f.encode m e = bits
  /-- The significand has no more bits than it may have. -/
  lt : m < 2 * 2 ^ (f.precision - 1)
  /-- A leading bit is there. -/
  le : 0 < e → 2 ^ (f.precision - 1) ≤ m
  /-- Below, the numbers become denser where a new exponent starts. -/
  narrow : f.narrowBelow bits = true ↔ 0 < e ∧ m = 2 ^ (f.precision - 1)

theorem exists_splits (f : BinaryFormat) (bits : ℕ) : ∃ m e, f.Splits bits m e := by
  have hunit : 0 < 2 ^ (f.precision - 1) := Nat.two_pow_pos _
  have hmod : bits % 2 ^ (f.precision - 1) < 2 ^ (f.precision - 1) := Nat.mod_lt _ hunit
  have hdiv := Nat.div_add_mod bits (2 ^ (f.precision - 1))
  rw [Nat.mul_comm] at hdiv
  cases hexp : bits / 2 ^ (f.precision - 1) with
  | zero =>
    rw [hexp, Nat.zero_mul, Nat.zero_add] at hdiv
    refine ⟨bits % 2 ^ (f.precision - 1), 0, ?_, ?_, by omega, by omega, ?_⟩
    · unfold BinaryFormat.decode
      simp [hexp]
    · unfold BinaryFormat.encode
      simp [hdiv]
    · unfold narrowBelow
      simp [hexp]
  | succ e =>
    rw [hexp, Nat.add_mul, Nat.one_mul] at hdiv
    refine ⟨2 ^ (f.precision - 1) + bits % 2 ^ (f.precision - 1), e, ?_, ?_, by omega, by omega, ?_⟩
    · unfold BinaryFormat.decode
      simp [hexp]
    · unfold BinaryFormat.encode
      simp only [Nat.pow_eq]
      omega
    · unfold narrowBelow
      simp [hexp, and_comm]

theorem Splits.pos (h : f.Splits bits m e) (hbits : bits ≠ 0) : 0 < m := by
  by_contra hm
  obtain rfl : m = 0 := by omega
  have he : e = 0 := by
    by_contra he
    have hle := h.le (Nat.pos_of_ne_zero he)
    have hunit := Nat.two_pow_pos (f.precision - 1)
    omega
  rw [he] at h
  exact hbits (h.encode.symm.trans (by simp [BinaryFormat.encode]))

/-! ### What rounds to a number -/

/-- The number `x` rounds to the number with the given pattern. -/
def Rounds (f : BinaryFormat) (bits : ℕ) (x : ℚ) : Prop :=
  Within ((f.decode bits).1 % 2 == 0)
    (((f.decode bits).1 - if f.narrowBelow bits then 1 / 4 else 1 / 2) * 2 ^ (f.decode bits).2)
    (((f.decode bits).1 + 1 / 2) * 2 ^ (f.decode bits).2) x

theorem Splits.rounds_iff (h : f.Splits bits m e) :
    f.Rounds bits x ↔ Within (m % 2 == 0)
      ((m - if 0 < e ∧ m = 2 ^ (f.precision - 1) then 1 / 4 else 1 / 2)
        * 2 ^ ((e : ℤ) - f.denominator))
      ((m + 1 / 2) * 2 ^ ((e : ℤ) - f.denominator)) x := by
  unfold Rounds
  rw [h.decode]
  simp only [h.narrow]

/-- In units of the significand a number that rounds to another is at most one half from it. -/
theorem Splits.within (h : f.Splits bits m e) (hx : f.Rounds bits x) :
    Within (m % 2 == 0) (m - 1 / 2) (m + 1 / 2) (x / 2 ^ ((e : ℤ) - f.denominator)) := by
  have hpow : (0 : ℚ) < 2 ^ ((e : ℤ) - f.denominator) := zpow_pos two_pos _
  rw [h.rounds_iff] at hx
  rw [← within_mul_iff hpow, div_mul_cancel₀ x hpow.ne']
  apply hx.mono _ le_rfl
  apply mul_le_mul_of_nonneg_right _ hpow.le
  split <;> linarith

/-- A number rounds to itself. -/
theorem rounds_value (f : BinaryFormat) (bits : ℕ) : f.Rounds bits (f.value bits) := by
  have hpow : (0 : ℚ) < 2 ^ (f.decode bits).2 := zpow_pos two_pos _
  unfold Rounds value
  apply within_of_lt
  · apply mul_lt_mul_of_pos_right _ hpow
    split <;> linarith
  · apply mul_lt_mul_of_pos_right _ hpow
    linarith

/-- Half the least positive number is the least that rounds to a positive one. -/
theorem Rounds.half_least_le (h : f.Rounds bits x) (hbits : bits ≠ 0) :
    2 ^ (-(f.denominator : ℤ) - 1) ≤ x := by
  obtain ⟨m, e, hs⟩ := f.exists_splits bits
  have hm : (1 : ℚ) ≤ m := by exact_mod_cast hs.pos hbits
  have hlow := (hs.rounds_iff.1 h).le.1
  calc (2 : ℚ) ^ (-(f.denominator : ℤ) - 1)
      = 1 / 2 * 2 ^ (-(f.denominator : ℤ)) := by
        rw [zpow_sub₀ two_ne_zero, zpow_one, div_eq_mul_inv, mul_comm, one_div]
    _ ≤ 1 / 2 * 2 ^ ((e : ℤ) - f.denominator) := by
        apply mul_le_mul_of_nonneg_left _ (by norm_num)
        exact zpow_le_zpow_right₀ (by norm_num) (by omega)
    _ ≤ (m - if 0 < e ∧ m = 2 ^ (f.precision - 1) then 1 / 4 else 1 / 2)
          * 2 ^ ((e : ℤ) - f.denominator) := by
        apply mul_le_mul_of_nonneg_right _ (zpow_pos two_pos _).le
        split <;> linarith
    _ ≤ x := hlow

theorem Rounds.pos (h : f.Rounds bits x) (hbits : bits ≠ 0) : 0 < x :=
  (zpow_pos two_pos _).trans_le (h.half_least_le hbits)

/-! ### The nearest number -/

/-- The leading bits of numerator and denominator tell that of a fraction up to one. -/
theorem div_bounds (hnum : 0 < num) (hden : 0 < den) :
    (2 : ℚ) ^ ((num.log2 : ℤ) - den.log2 - 1) ≤ num / den ∧
      (num : ℚ) / den < 2 ^ ((num.log2 : ℤ) - den.log2 + 1) := by
  have hdenQ : (0 : ℚ) < den := Nat.cast_pos.2 hden
  have hnumLow : (2 : ℚ) ^ num.log2 ≤ num := by exact_mod_cast Nat.log2_self_le hnum.ne'
  have hnumHigh : (num : ℚ) < 2 ^ (num.log2 + 1) := by exact_mod_cast Nat.lt_log2_self
  have hdenLow : (2 : ℚ) ^ den.log2 ≤ den := by exact_mod_cast Nat.log2_self_le hden.ne'
  have hdenHigh : (den : ℚ) < 2 ^ (den.log2 + 1) := by exact_mod_cast Nat.lt_log2_self
  constructor
  · rw [le_div_iff₀ hdenQ]
    calc (2 : ℚ) ^ ((num.log2 : ℤ) - den.log2 - 1) * den
        ≤ 2 ^ ((num.log2 : ℤ) - den.log2 - 1) * 2 ^ (den.log2 + 1) :=
          mul_le_mul_of_nonneg_left hdenHigh.le (zpow_pos two_pos _).le
      _ = 2 ^ num.log2 := by
          rw [← zpow_natCast, ← zpow_natCast, ← zpow_add₀ two_ne_zero]
          congr 1
          push_cast
          omega
      _ ≤ num := hnumLow
  · rw [div_lt_iff₀ hdenQ]
    calc (num : ℚ) < 2 ^ (num.log2 + 1) := hnumHigh
      _ = 2 ^ ((num.log2 : ℤ) - den.log2 + 1) * 2 ^ den.log2 := by
          rw [← zpow_natCast, ← zpow_natCast, ← zpow_add₀ two_ne_zero]
          congr 1
          push_cast
          omega
      _ ≤ 2 ^ ((num.log2 : ℤ) - den.log2 + 1) * den :=
          mul_le_mul_of_nonneg_left hdenLow (zpow_pos two_pos _).le

theorem div_lt_zpow_iff (hden : 0 < den) (z : ℤ) :
    num * 2 ^ (-z).toNat < den * 2 ^ z.toNat ↔ (num : ℚ) / den < 2 ^ z := by
  have hdenQ : (0 : ℚ) < den := Nat.cast_pos.2 hden
  rw [zpow_eq_div 2 two_ne_zero, div_lt_div_iff₀ hdenQ (by positivity), mul_comm (2 ^ _) (den : ℚ)]
  exact_mod_cast Iff.rfl

/-- The difference of the leading bits of a fraction is that of its number, or one too large. -/
theorem leading_eq_log (hnum : 0 < num) (hden : 0 < den) {estimate : ℤ}
    (h : estimate = (num.log2 : ℤ) - den.log2) :
    (if num * 2 ^ (-estimate).toNat < den * 2 ^ estimate.toNat then estimate - 1 else estimate)
      = Int.log 2 ((num : ℚ) / den) := by
  have hx : (0 : ℚ) < num / den := div_pos (Nat.cast_pos.2 hnum) (Nat.cast_pos.2 hden)
  have hone : 1 < 2 := by decide
  have hlogLow := (Int.zpow_le_iff_le_log hone hx).1 (div_bounds hnum hden).1
  have hlogHigh := (Int.lt_zpow_iff_log_lt hone hx).1 (div_bounds hnum hden).2
  have hbelow := (div_lt_zpow_iff hden estimate).trans (Int.lt_zpow_iff_log_lt hone hx)
  split
  · next hlt =>
    have hlog := hbelow.1 hlt
    omega
  · next hge =>
    have hlog := mt hbelow.2 hge
    omega

theorem div_zpow_eq (num den : ℕ) (q : ℤ) :
    ((num * 2 ^ (-q).toNat : ℕ) : ℚ) / (den * 2 ^ q.toNat : ℕ) = num / den / 2 ^ q := by
  rw [zpow_eq_div 2 two_ne_zero, div_div, ← mul_div_assoc, div_div_eq_mul_div]
  push_cast
  rfl

/-- The exponent of the nearest number is that of the fraction, unless it is too small. -/
theorem nearest_eq (hnum : 0 < num) (hden : 0 < den)
    (h : (Int.log 2 ((num : ℚ) / den) - ((f.precision : ℤ) - 1) + f.denominator).toNat = e)
    (hround : Within (m % 2 == 0) (m - 1 / 2) (m + 1 / 2)
      ((num : ℚ) / den / 2 ^ ((e : ℤ) - f.denominator))) :
    f.nearest num den = f.encode m e := by
  unfold nearest
  rw [if_neg hnum.ne']
  simp only [Nat.pow_eq]
  rw [leading_eq_log hnum hden rfl, h]
  rw [← div_zpow_eq] at hround
  rw [roundHalfEven_eq (by positivity) hround]

theorem two_pow_precision (hprecision : 0 < f.precision) (q : ℤ) :
    ((2 ^ (f.precision - 1) : ℕ) : ℚ) * 2 ^ q = 2 ^ ((f.precision : ℤ) - 1 + q) := by
  rw [zpow_add₀ two_ne_zero, Nat.cast_pow, Nat.cast_ofNat, ← zpow_natCast]
  congr 2
  omega

/-- What rounds to a number is below the power of two that no number with its exponent reaches. -/
theorem Splits.lt_of_rounds (hs : f.Splits bits m e) (hprecision : 0 < f.precision)
    (hx : f.Rounds bits x) : x < 2 ^ ((f.precision : ℤ) + (e - f.denominator)) := by
  have hpow : (0 : ℚ) < 2 ^ ((e : ℤ) - f.denominator) := zpow_pos two_pos _
  have hm : (m : ℚ) + 1 ≤ 2 * (2 ^ (f.precision - 1) : ℕ) := by exact_mod_cast hs.lt
  calc x ≤ (m + 1 / 2) * 2 ^ ((e : ℤ) - f.denominator) := (hs.rounds_iff.1 hx).le.2
    _ < 2 * (2 ^ (f.precision - 1) : ℕ) * 2 ^ ((e : ℤ) - f.denominator) := by
        apply mul_lt_mul_of_pos_right _ hpow
        linarith
    _ = 2 ^ ((f.precision : ℤ) + (e - f.denominator)) := by
        rw [mul_assoc, two_pow_precision hprecision, ← zpow_one_add₀ two_ne_zero]
        congr 1
        omega

/-- What rounds to a number but has a lesser leading bit is at most a quarter below a power of
two. -/
theorem Splits.below_of_rounds (hs : f.Splits bits m e) (he : 0 < e) (hx : f.Rounds bits x)
    (hlt : x < (2 ^ (f.precision - 1) : ℕ) * 2 ^ ((e : ℤ) - f.denominator)) :
    m = 2 ^ (f.precision - 1) ∧
      ((2 ^ (f.precision - 1) : ℕ) - 1 / 4) * 2 ^ ((e : ℤ) - f.denominator) ≤ x := by
  have hpow : (0 : ℚ) < 2 ^ ((e : ℤ) - f.denominator) := zpow_pos two_pos _
  have hm : m = 2 ^ (f.precision - 1) := by
    apply le_antisymm _ (hs.le he)
    have hwithin := ((hs.within hx).le.1).trans_lt ((div_lt_iff₀ hpow).2 hlt)
    have hm : (m : ℚ) < (2 ^ (f.precision - 1) : ℕ) + 1 := by linarith
    exact Nat.lt_succ_iff.1 (by exact_mod_cast hm)
  have hlow := (hs.rounds_iff.1 hx).le.1
  rw [if_pos ⟨he, hm⟩, hm] at hlow
  exact ⟨hm, hlow⟩

/-- A fraction with the exponent of the number that it rounds to. -/
theorem Splits.nearest_of_le (hs : f.Splits bits m e) (hprecision : 0 < f.precision)
    (hnum : 0 < num) (hden : 0 < den) (h : f.Rounds bits (num / den))
    (hle : e = 0 ∨ (2 ^ (f.precision - 1) : ℕ) * 2 ^ ((e : ℤ) - f.denominator) ≤ (num : ℚ) / den) :
    f.nearest num den = bits := by
  have hx : (0 : ℚ) < num / den := div_pos (Nat.cast_pos.2 hnum) (Nat.cast_pos.2 hden)
  have hone : 1 < 2 := by decide
  have hhigh := (Int.lt_zpow_iff_log_lt hone hx).1 (hs.lt_of_rounds hprecision h)
  rw [nearest_eq hnum hden _ (hs.within h), hs.encode]
  rcases hle with rfl | hle
  · omega
  · rw [two_pow_precision hprecision] at hle
    have hlow := (Int.zpow_le_iff_le_log hone hx).1 hle
    omega

/-- At most a quarter of a unit below `unit` is at most a half of a lesser one below twice that. -/
theorem within_of_quarter_below {unit : ℕ} {u : ℚ} (hunit : 1 ≤ unit) (hu : 0 < u)
    (hlow : (unit - 1 / 4) * (u * 2) ≤ x) (hlt : x < unit * (u * 2)) :
    Within (2 * unit % 2 == 0) ((2 * unit : ℕ) - 1 / 2) ((2 * unit : ℕ) + 1 / 2) (x / u) ∧
      unit * u ≤ x := by
  have hunitQ : (1 : ℚ) ≤ unit := by exact_mod_cast hunit
  refine ⟨?_, by nlinarith⟩
  unfold Within
  rw [if_pos (by simp), le_div_iff₀ hu, div_le_iff₀ hu, Nat.cast_mul, Nat.cast_ofNat]
  constructor <;> nlinarith

/-- A fraction with a lesser exponent rounds to a significand that carries into the exponent. -/
theorem Splits.nearest_of_lt (hs : f.Splits bits m e) (hprecision : 0 < f.precision)
    (hnum : 0 < num) (hden : 0 < den) (h : f.Rounds bits (num / den)) (he : 0 < e)
    (hlt : (num : ℚ) / den < (2 ^ (f.precision - 1) : ℕ) * 2 ^ ((e : ℤ) - f.denominator)) :
    f.nearest num den = bits := by
  obtain ⟨hm, hlow⟩ := hs.below_of_rounds he h hlt
  obtain ⟨e, rfl⟩ := Nat.exists_eq_succ_of_ne_zero he.ne'
  have hx : (0 : ℚ) < num / den := div_pos (Nat.cast_pos.2 hnum) (Nat.cast_pos.2 hden)
  have hone : 1 < 2 := by decide
  have hpow : (0 : ℚ) < 2 ^ ((e : ℤ) - f.denominator) := zpow_pos two_pos _
  have hsucc : (2 : ℚ) ^ (((e + 1 : ℕ) : ℤ) - f.denominator)
      = 2 ^ ((e : ℤ) - f.denominator) * 2 := by
    rw [← zpow_add_one₀ two_ne_zero]
    congr 1
    push_cast
    omega
  obtain ⟨hround, hhalf⟩ :=
    within_of_quarter_below Nat.one_le_two_pow hpow (hsucc ▸ hlow) (hsucc ▸ hlt)
  rw [two_pow_precision hprecision] at hhalf hlt
  have hlogLow := (Int.zpow_le_iff_le_log hone hx).1 hhalf
  have hlogHigh := (Int.lt_zpow_iff_log_lt hone hx).1 hlt
  rw [nearest_eq hnum hden _ hround, ← hs.encode, hm]
  · show e * 2 ^ (f.precision - 1) + 2 * 2 ^ (f.precision - 1)
      = (e + 1) * 2 ^ (f.precision - 1) + 2 ^ (f.precision - 1)
    ring
  · push_cast at hlogHigh
    omega

/-- **The nearest number is the one that a fraction rounds to.** -/
theorem nearest_of_rounds (hprecision : 0 < f.precision) (hbits : bits ≠ 0) (hden : 0 < den)
    (h : f.Rounds bits (num / den)) : f.nearest num den = bits := by
  obtain ⟨m, e, hs⟩ := f.exists_splits bits
  have hx := h.pos hbits
  have hnum : 0 < num := by
    apply Nat.pos_of_ne_zero
    rintro rfl
    simp at hx
  rcases Nat.eq_zero_or_pos e with he | he
  · exact hs.nearest_of_le hprecision hnum hden h (Or.inl he)
  · rcases le_or_gt (((2 ^ (f.precision - 1) : ℕ) : ℚ) * 2 ^ ((e : ℤ) - f.denominator))
      ((num : ℚ) / den) with hle | hlt
    · exact hs.nearest_of_le hprecision hnum hden h (Or.inr hle)
    · exact hs.nearest_of_lt hprecision hnum hden h he hlt

/-! ### The nearest number to a decimal -/

/-- No number of the format has more bits in front of the point. -/
def ceiling (f : BinaryFormat) : ℕ :=
  f.precision + f.infinity / 2 ^ (f.precision - 1) - f.denominator

/-- What the constants of a format have to do with each other, and with those of decimals. -/
structure Proper (f : BinaryFormat) : Prop where
  /-- Significands have a leading bit. -/
  precision_pos : 0 < f.precision
  /-- What rounds to the least positive number is not too small for a decimal. -/
  least : 2 ^ (f.denominator + 1) ≤ 10 ^ 400
  /-- What rounds to the greatest number is not too large for one. -/
  greatest : 2 ^ f.ceiling ≤ 10 ^ 400
  /-- All digits of a number that is not an integer are read one by one. -/
  fraction : 2 ^ f.precision * 5 ^ f.denominator ≤ 10 ^ f.digitLimit
  /-- So are those of an integer. -/
  whole : 2 ^ f.ceiling ≤ 10 ^ f.digitLimit
  /-- So are eighteen digits. -/
  eighteen : 18 ≤ f.digitLimit

theorem proper_binary32 : binary32.Proper where
  precision_pos := by decide
  least := by decide +kernel
  greatest := by decide +kernel
  fraction := by decide +kernel
  whole := by decide +kernel
  eighteen := by decide

theorem proper_binary64 : binary64.Proper where
  precision_pos := by decide
  least := by decide +kernel
  greatest := by decide +kernel
  fraction := by decide +kernel
  whole := by decide +kernel
  eighteen := by decide

theorem Splits.le_ceiling (hs : f.Splits bits m e) (hfinite : bits < f.infinity) :
    (f.precision : ℤ) + (e - f.denominator) ≤ f.ceiling := by
  have he : e ≤ f.infinity / 2 ^ (f.precision - 1) := by
    rw [Nat.le_div_iff_mul_le (Nat.two_pow_pos _)]
    calc e * 2 ^ (f.precision - 1) ≤ f.encode m e := Nat.le_add_right _ _
      _ ≤ f.infinity := hs.encode.trans_le hfinite.le
  unfold ceiling
  omega

/-- What rounds to a number is less than the power of two above all numbers. -/
theorem Rounds.lt_ceiling (h : f.Rounds bits x) (hprecision : 0 < f.precision)
    (hfinite : bits < f.infinity) : x < 2 ^ f.ceiling := by
  obtain ⟨m, e, hs⟩ := f.exists_splits bits
  calc x < 2 ^ ((f.precision : ℤ) + (e - f.denominator)) := hs.lt_of_rounds hprecision h
    _ ≤ 2 ^ (f.ceiling : ℤ) := zpow_le_zpow_right₀ (by norm_num) (hs.le_ceiling hfinite)
    _ = 2 ^ f.ceiling := zpow_natCast 2 _

theorem length_toDigits_pos (n : ℕ) : 0 < (Nat.toDigits 10 n).length :=
  List.length_pos_iff.2 Nat.toDigits_ne_nil

/-- The number of digits tells a power of ten that a number is below. -/
theorem lt_pow_length_toDigits (n : ℕ) : n < 10 ^ (Nat.toDigits 10 n).length :=
  (Nat.length_toDigits_le_iff (by decide) (length_toDigits_pos n)).1 le_rfl

/-- It is the least one. -/
theorem pow_length_toDigits_le {n : ℕ} (hn : n ≠ 0) :
    10 ^ ((Nat.toDigits 10 n).length - 1) ≤ n := by
  have hpos := length_toDigits_pos n
  by_contra hlt
  rcases Nat.eq_zero_or_pos ((Nat.toDigits 10 n).length - 1) with hone | hmore
  · rw [hone] at hlt
    omega
  · have hle := (Nat.length_toDigits_le_iff (by decide) hmore).2 (Nat.lt_of_not_le hlt)
    omega

/-- The leading digit of a decimal tells the power of ten that it is below. -/
theorem decimal_bounds {digits : ℕ} (hdigits : digits ≠ 0) (exponent : ℤ) :
    (10 : ℚ) ^ (((Nat.toDigits 10 digits).length : ℤ) + exponent - 1) ≤ digits * 10 ^ exponent ∧
      digits * 10 ^ exponent < (10 : ℚ) ^ (((Nat.toDigits 10 digits).length : ℤ) + exponent) := by
  have hpos := length_toDigits_pos digits
  have hten : (10 : ℚ) ≠ 0 := by norm_num
  have hpow : (0 : ℚ) < 10 ^ exponent := zpow_pos (by norm_num) _
  constructor
  · calc (10 : ℚ) ^ (((Nat.toDigits 10 digits).length : ℤ) + exponent - 1)
        = (10 ^ ((Nat.toDigits 10 digits).length - 1) : ℕ) * 10 ^ exponent := by
          rw [Nat.cast_pow, Nat.cast_ofNat, ← zpow_natCast, ← zpow_add₀ hten]
          congr 1
          omega
      _ ≤ digits * 10 ^ exponent :=
          mul_le_mul_of_nonneg_right (Nat.cast_le.2 (pow_length_toDigits_le hdigits)) hpow.le
  · calc digits * 10 ^ exponent
        < (10 ^ (Nat.toDigits 10 digits).length : ℕ) * (10 : ℚ) ^ exponent :=
          mul_lt_mul_of_pos_right (Nat.cast_lt.2 (lt_pow_length_toDigits digits)) hpow
      _ = 10 ^ (((Nat.toDigits 10 digits).length : ℤ) + exponent) := by
          rw [Nat.cast_pow, Nat.cast_ofNat, ← zpow_natCast, ← zpow_add₀ hten]

section Decimal

variable {digits : ℕ} {exponent : ℤ}

/-- What rounds to a number is not too small to be looked at. -/
theorem Rounds.neg_reach_le (h : f.Rounds bits (digits * 10 ^ exponent)) (hf : f.Proper)
    (hbits : bits ≠ 0) (hdigits : digits ≠ 0) :
    -decimalReach ≤ (Nat.toDigits 10 digits).length + exponent := by
  by_contra hlt
  have hle : ((Nat.toDigits 10 digits).length : ℤ) + exponent ≤ -(400 : ℕ) := (not_le.1 hlt).le
  have hpow : ((2 ^ (f.denominator + 1) : ℕ) : ℚ) ≤ (10 ^ 400 : ℕ) := Nat.cast_le.2 hf.least
  apply lt_irrefl (digits * 10 ^ exponent : ℚ)
  calc (digits * 10 ^ exponent : ℚ)
      < 10 ^ (((Nat.toDigits 10 digits).length : ℤ) + exponent) := (decimal_bounds hdigits _).2
    _ ≤ 10 ^ (-(400 : ℕ) : ℤ) := zpow_le_zpow_right₀ (by norm_num) hle
    _ = ((10 ^ 400 : ℕ) : ℚ)⁻¹ := by rw [zpow_neg, zpow_natCast, Nat.cast_pow, Nat.cast_ofNat]
    _ ≤ ((2 ^ (f.denominator + 1) : ℕ) : ℚ)⁻¹ := inv_anti₀ (by positivity) hpow
    _ = 2 ^ (-(f.denominator : ℤ) - 1) := by
        rw [Nat.cast_pow, Nat.cast_ofNat, ← zpow_natCast, ← zpow_neg]
        congr 1
        push_cast
        omega
    _ ≤ digits * 10 ^ exponent := h.half_least_le hbits

/-- What rounds to a number is not too large to be looked at. -/
theorem Rounds.le_reach (h : f.Rounds bits (digits * 10 ^ exponent)) (hf : f.Proper)
    (hfinite : bits < f.infinity) (hdigits : digits ≠ 0) :
    (Nat.toDigits 10 digits).length + exponent ≤ decimalReach := by
  by_contra hlt
  have hle : ((400 : ℕ) : ℤ) ≤ ((Nat.toDigits 10 digits).length : ℤ) + exponent - 1 :=
    Int.le_sub_one_of_lt (not_le.1 hlt)
  apply lt_irrefl (digits * 10 ^ exponent : ℚ)
  calc (digits * 10 ^ exponent : ℚ)
      < 2 ^ f.ceiling := h.lt_ceiling hf.precision_pos hfinite
    _ ≤ ((10 ^ 400 : ℕ) : ℚ) := by exact_mod_cast hf.greatest
    _ = 10 ^ ((400 : ℕ) : ℤ) := by rw [zpow_natCast, Nat.cast_pow, Nat.cast_ofNat]
    _ ≤ 10 ^ (((Nat.toDigits 10 digits).length : ℤ) + exponent - 1) :=
        zpow_le_zpow_right₀ (by norm_num) hle
    _ ≤ digits * 10 ^ exponent := (decimal_bounds hdigits _).1

/-- **A decimal is read as the number that it rounds to.** -/
theorem ofDecimal_of_rounds (hf : f.Proper) (hbits : bits ≠ 0) (hfinite : bits < f.infinity)
    (h : f.Rounds bits (digits * 10 ^ exponent)) : f.ofDecimal digits exponent = some bits := by
  have hdigits : digits ≠ 0 := by
    rintro rfl
    have hpos := h.pos hbits
    simp at hpos
  have hleast := (h.neg_reach_le hf hbits hdigits).not_gt
  have hgreatest := (h.le_reach hf hfinite hdigits).not_gt
  have hnearest : f.nearest (digits * 10 ^ exponent.toNat) (10 ^ (-exponent).toNat) = bits := by
    apply nearest_of_rounds hf.precision_pos hbits (by positivity)
    rw [zpow_eq_div 10 (by norm_num), ← mul_div_assoc] at h
    push_cast
    exact h
  unfold ofDecimal
  simp only [Nat.pow_eq]
  rw [if_neg (by simp [hdigits, hleast]), if_neg hgreatest, hnearest, if_pos hfinite]

end Decimal

end BinaryFormat
end Slotted
