import Slotted.Decimal.Shortest
import Slotted.Proofs.Decimal.Nearest

/-!
# The shortest decimal reads back

The interval on a decimal grid is that of the numbers that round to the given one, scaled so that
its ends are integers.  A point of the grid is only taken from within the interval, and the number
itself is there too, if all its digits are taken; so what is found rounds to the number, whichever
grid it is on, and to take the zeros off its end does not change that.

## Main definitions

* `Decimal.value` — the number that a decimal is.

## Main results

* `BinaryFormat.readsBack_onGrid` — the points of a grid that read back are those that round.
* `BinaryFormat.rounds_shortest` — the shortest decimal rounds to the number.
* `BinaryFormat.digits_shortest_lt` — its digits are all read.
* `BinaryFormat.ofDecimal_of_value_eq` — so the number is read back.
-/

namespace Slotted

/-- The number that a decimal is. -/
def Decimal.value (d : Decimal) : ℚ := d.digits * 10 ^ d.exponent

theorem Decimal.value_eq_zero_iff {d : Decimal} : d.value = 0 ↔ d.digits = 0 := by
  have hpow : (10 : ℚ) ^ d.exponent ≠ 0 := zpow_ne_zero _ (by norm_num)
  simp [value, hpow]

/-! ### Grid points -/

theorem Tie.pick_cases (tie : Tie) (d : ℕ) : tie.pick d = d ∨ tie.pick d = d + 1 := by
  cases tie with
  | away => exact Or.inr rfl
  | even => exact ite_eq_or_eq _ _ _

namespace Rounding

variable {r : Rounding} {tie : Tie} {d : ℕ} {s low high x : ℚ}

theorem nearer_cases (r : Rounding) (tie : Tie) (d : ℕ) :
    r.nearer tie d = d ∨ r.nearer tie d = d + 1 := by
  unfold nearer
  dsimp only
  split_ifs
  · exact Or.inl rfl
  · exact Or.inr rfl
  · exact tie.pick_cases d

/-- The point that is taken reads back, and it is next to the number. -/
theorem gridPoint?_eq_some (h : r.gridPoint? tie = some d) :
    r.readsBack d = true ∧ d ≤ r.value / r.unit + 1 := by
  unfold gridPoint? at h
  dsimp only at h
  split at h
  · next hlow hhigh =>
    obtain rfl := Option.some.inj h
    rcases r.nearer_cases tie (r.value / r.unit) with heq | heq
    · rw [heq]
      exact ⟨hlow, Nat.le_succ _⟩
    · rw [heq]
      exact ⟨hhigh, le_rfl⟩
  · next hlow _ =>
    obtain rfl := Option.some.inj h
    exact ⟨hlow, Nat.le_succ _⟩
  · next _ hhigh =>
    obtain rfl := Option.some.inj h
    exact ⟨hhigh, le_rfl⟩
  · cases h

/-- To read back is to lie between the ends, on whatever scale. -/
theorem readsBack_iff (hs : 0 < s) (hlow : (r.low : ℚ) = low * s) (hhigh : (r.high : ℚ) = high * s)
    (hx : ((d * r.unit : ℕ) : ℚ) = x * s) :
    r.readsBack d = true ↔ Within r.closed low high x := by
  rw [← within_mul_iff hs, ← hlow, ← hhigh, ← hx]
  unfold readsBack Within
  split
  · simp only [Bool.and_eq_true, decide_eq_true_eq, Nat.cast_le]
  · simp only [Bool.and_eq_true, decide_eq_true_eq, Nat.cast_lt]

end Rounding

theorem zpow_mul_pow_neg (b : ℚ) (hb : b ≠ 0) (z : ℤ) : b ^ z * b ^ (-z).toNat = b ^ z.toNat := by
  rw [zpow_eq_div b hb, div_mul_cancel₀ _ (pow_ne_zero _ hb)]

namespace BinaryFormat

variable {f : BinaryFormat} {bits d : ℕ} {tie : Tie}

/-- What a one is in the integers of a grid. -/
def gridScale (f : BinaryFormat) (bits : ℕ) (j : ℤ) : ℚ :=
  4 * 2 ^ (-(f.decode bits).2).toNat * 10 ^ (-j).toNat

theorem gridScale_pos (f : BinaryFormat) (bits : ℕ) (j : ℤ) : 0 < f.gridScale bits j := by
  unfold gridScale
  positivity

theorem value_onGrid (f : BinaryFormat) (bits : ℕ) (j : ℤ) :
    ((f.onGrid bits j).value : ℚ) = f.value bits * f.gridScale bits j := by
  unfold onGrid value gridScale
  simp only [Nat.pow_eq]
  push_cast
  rw [← zpow_mul_pow_neg 2 two_ne_zero]
  ring

theorem unit_onGrid (f : BinaryFormat) (bits : ℕ) (j : ℤ) :
    ((f.onGrid bits j).unit : ℚ) = 10 ^ j * f.gridScale bits j := by
  unfold onGrid gridScale
  simp only [Nat.pow_eq]
  push_cast
  rw [← zpow_mul_pow_neg 10 (by norm_num)]
  ring

/-- **The points of a grid that read back are those that round to the number.** -/
theorem readsBack_onGrid (hbits : bits ≠ 0) (j : ℤ) :
    (f.onGrid bits j).readsBack d = true ↔ f.Rounds bits (d * 10 ^ j) := by
  obtain ⟨m, e, hs⟩ := f.exists_splits bits
  have hm : 0 < (f.decode bits).1 := by
    rw [hs.decode]
    exact hs.pos hbits
  unfold Rounds
  apply Rounding.readsBack_iff (f.gridScale_pos bits j)
  · have hfour : ((4 * (f.decode bits).1 - if f.narrowBelow bits then 1 else 2 : ℕ) : ℚ)
        = 4 * ((f.decode bits).1 - if f.narrowBelow bits then 1 / 4 else 1 / 2) := by
      split
      · rw [Nat.cast_sub (by omega)]
        push_cast
        ring
      · rw [Nat.cast_sub (by omega)]
        push_cast
        ring
    unfold onGrid gridScale
    simp only [Nat.pow_eq]
    rw [Nat.cast_mul, hfour]
    push_cast
    rw [← zpow_mul_pow_neg 2 two_ne_zero]
    ring
  · unfold onGrid gridScale
    simp only [Nat.pow_eq]
    push_cast
    rw [← zpow_mul_pow_neg 2 two_ne_zero]
    ring
  · rw [Nat.cast_mul, unit_onGrid]
    ring

/-! ### The search -/

theorem value_eq_div (f : BinaryFormat) (bits : ℕ) :
    f.value bits = ((f.decode bits).1 * 2 ^ (f.decode bits).2.toNat : ℕ)
      / (2 ^ (-(f.decode bits).2).toNat : ℕ) := by
  unfold value
  rw [zpow_eq_div 2 two_ne_zero, ← mul_div_assoc]
  push_cast
  rfl

/-- How often a fraction goes into one tells the zeros behind its point. -/
theorem div_lt_zpow_of_lt {num den : ℕ} (hnum : 0 < num) (hlt : num < den) :
    (num : ℚ) / den < 10 ^ (1 - ((Nat.toDigits 10 ((den - 1) / num)).length : ℤ)) := by
  have hdenQ : (0 : ℚ) < den := Nat.cast_pos.2 (hnum.trans hlt)
  have hquot : (den - 1) / num ≠ 0 := (Nat.div_pos (Nat.le_sub_one_of_lt hlt) hnum).ne'
  have hlow := pow_length_toDigits_le hquot
  have hlen := length_toDigits_pos ((den - 1) / num)
  generalize (Nat.toDigits 10 ((den - 1) / num)).length = l at hlow hlen ⊢
  have hmul : 10 ^ (l - 1) * num < den := by
    have hle := (Nat.mul_le_mul_right num hlow).trans (Nat.div_mul_le_self _ _)
    omega
  have hexp : (1 : ℤ) - l = -((l - 1 : ℕ) : ℤ) := by omega
  rw [hexp, zpow_neg, zpow_natCast, ← one_div, div_lt_div_iff₀ hdenQ (by positivity), one_mul,
    mul_comm]
  exact_mod_cast hmul

/-- A number is below the power of ten that the search begins with. -/
theorem value_lt_scale (hbits : bits ≠ 0) : f.value bits < 10 ^ f.scale bits := by
  obtain ⟨m, e, hs⟩ := f.exists_splits bits
  have hm : 0 < (f.decode bits).1 := by
    rw [hs.decode]
    exact hs.pos hbits
  rw [value_eq_div]
  unfold scale
  simp only [Nat.pow_eq]
  generalize (f.decode bits).1 = m at hm ⊢
  generalize (f.decode bits).2 = q
  have hden : 0 < 2 ^ (-q).toNat := Nat.two_pow_pos _
  split
  · next hwhole =>
    rw [zpow_natCast, div_lt_iff₀ (Nat.cast_pos.2 hden)]
    exact_mod_cast (Nat.div_lt_iff_lt_mul hden).1 (lt_pow_length_toDigits _)
  · next hwhole =>
    have hlt : m * 2 ^ q.toNat < 2 ^ (-q).toNat :=
      Nat.lt_of_div_eq_zero hden (Nat.eq_zero_of_not_pos hwhole)
    have hq : q.toNat = 0 := by
      by_contra hne
      have hone : (-q).toNat = 0 := by omega
      rw [hone] at hlt
      have hpos := Nat.mul_pos hm (Nat.two_pow_pos q.toNat)
      omega
    rw [hq, pow_zero, mul_one] at hlt ⊢
    exact div_lt_zpow_of_lt hm hlt

/-- What the search finds is a point of one of the grids that it goes through. -/
theorem exists_of_shortestFrom {k : ℤ} {fuel n : ℕ} {d : Decimal}
    (h : f.shortestFrom tie bits k fuel n = some d) :
    ∃ i < n + fuel, d.exponent = k - i ∧
      (f.onGrid bits d.exponent).gridPoint? tie = some d.digits := by
  induction fuel generalizing n with
  | zero => cases h
  | succ fuel ih =>
    unfold shortestFrom at h
    split at h
    · next digits hpoint =>
      obtain rfl := Option.some.inj h
      exact ⟨n, by omega, rfl, hpoint⟩
    · obtain ⟨i, hi, hd⟩ := ih h
      exact ⟨i, by omega, hd⟩

/-- A point that is taken has no more digits than its grid, but for a one with zeros behind it. -/
theorem le_of_gridPoint? (hbits : bits ≠ 0) {i : ℕ}
    (h : (f.onGrid bits (f.scale bits - i)).gridPoint? tie = some d) : d ≤ 10 ^ i := by
  have hscale := f.gridScale_pos bits (f.scale bits - i)
  have hlt : (f.onGrid bits (f.scale bits - i)).value
      < 10 ^ i * (f.onGrid bits (f.scale bits - i)).unit := by
    have hltQ : ((f.onGrid bits (f.scale bits - i)).value : ℚ)
        < 10 ^ i * (f.onGrid bits (f.scale bits - i)).unit := by
      rw [value_onGrid, unit_onGrid, ← mul_assoc]
      apply mul_lt_mul_of_pos_right _ hscale
      calc f.value bits < 10 ^ f.scale bits := value_lt_scale hbits
        _ = 10 ^ i * 10 ^ (f.scale bits - i) := by
          rw [← zpow_natCast, ← zpow_add₀ (by norm_num)]
          congr 1
          omega
    exact_mod_cast hltQ
  have hunit : 0 < (f.onGrid bits (f.scale bits - i)).unit := by
    apply Nat.pos_of_ne_zero
    intro hzero
    rw [hzero] at hlt
    omega
  have hdiv := (Nat.div_lt_iff_lt_mul hunit).2 hlt
  have hle := (Rounding.gridPoint?_eq_some h).2
  omega

/-! ### The other decimals -/

theorem value_exactDecimal (f : BinaryFormat) (bits : ℕ) :
    (f.exactDecimal bits).value = f.value bits := by
  have hten (n : ℕ) : (10 : ℚ) ^ n = 2 ^ n * 5 ^ n := by rw [← mul_pow]; norm_num
  rw [value_eq_div]
  unfold exactDecimal Decimal.value
  simp only [Nat.pow_eq]
  rw [zpow_neg, zpow_natCast, hten]
  push_cast
  field_simp

/-- All digits of a number are read one by one. -/
theorem digits_exactDecimal_lt (hf : f.Proper) (hfinite : bits < f.infinity) :
    (f.exactDecimal bits).digits < 10 ^ f.digitLimit := by
  obtain ⟨m, e, hs⟩ := f.exists_splits bits
  have hm : m < 2 ^ f.precision := by
    calc m < 2 * 2 ^ (f.precision - 1) := hs.lt
      _ = 2 ^ f.precision := by
        rw [← Nat.pow_succ', Nat.succ_eq_add_one, Nat.sub_add_cancel hf.precision_pos]
  have hceiling := hs.le_ceiling hfinite
  unfold exactDecimal
  simp only [Nat.pow_eq]
  rw [hs.decode]
  dsimp only
  rcases le_or_gt ((e : ℤ) - f.denominator) 0 with hneg | hpos
  · have hzero : ((e : ℤ) - f.denominator).toNat = 0 := by omega
    rw [hzero, pow_zero, mul_one]
    calc m * 5 ^ (-((e : ℤ) - f.denominator)).toNat
        < 2 ^ f.precision * 5 ^ (-((e : ℤ) - f.denominator)).toNat :=
          Nat.mul_lt_mul_of_pos_right hm (Nat.pow_pos (by decide))
      _ ≤ 2 ^ f.precision * 5 ^ f.denominator :=
          Nat.mul_le_mul_left _ (Nat.pow_le_pow_right (by decide) (by omega))
      _ ≤ 10 ^ f.digitLimit := hf.fraction
  · have hzero : (-((e : ℤ) - f.denominator)).toNat = 0 := by omega
    rw [hzero, pow_zero, mul_one]
    calc m * 2 ^ ((e : ℤ) - f.denominator).toNat
        < 2 ^ f.precision * 2 ^ ((e : ℤ) - f.denominator).toNat :=
          Nat.mul_lt_mul_of_pos_right hm (Nat.two_pow_pos _)
      _ = 2 ^ (f.precision + ((e : ℤ) - f.denominator).toNat) := (Nat.pow_add _ _ _).symm
      _ ≤ 2 ^ f.ceiling := Nat.pow_le_pow_right (by decide) (by omega)
      _ ≤ 10 ^ f.digitLimit := hf.whole

theorem value_stripZeros (fuel : ℕ) (d : Decimal) : (stripZeros fuel d).value = d.value := by
  induction fuel generalizing d with
  | zero => rfl
  | succ fuel ih =>
    unfold stripZeros
    split
    · next h =>
      have hdigits : (d.digits : ℚ) = (d.digits / 10 : ℕ) * 10 := by
        exact_mod_cast (Nat.div_mul_cancel (Nat.dvd_of_mod_eq_zero h.1)).symm
      rw [ih]
      unfold Decimal.value
      rw [hdigits, zpow_add_one₀ (by norm_num)]
      ring
    · rfl

theorem digits_stripZeros_le (fuel : ℕ) (d : Decimal) : (stripZeros fuel d).digits ≤ d.digits := by
  induction fuel generalizing d with
  | zero => exact le_rfl
  | succ fuel ih =>
    unfold stripZeros
    split
    · exact (ih _).trans (Nat.div_le_self _ _)
    · exact le_rfl

/-! ### The shortest decimal -/

/-- The decimal whose zeros are taken off. -/
theorem exists_shortest_eq (f : BinaryFormat) (tie : Tie) (hbits : bits ≠ 0) :
    ∃ d : Decimal, f.shortest tie bits = stripZeros (Nat.toDigits 10 d.digits).length d ∧
      (d = f.exactDecimal bits ∨ f.shortestFrom tie bits (f.scale bits) 17 1 = some d) := by
  unfold shortest
  rw [if_neg hbits]
  refine ⟨_, rfl, ?_⟩
  cases f.shortestFrom tie bits (f.scale bits) 17 1 with
  | none => exact Or.inl rfl
  | some d => exact Or.inr rfl

theorem shortest_zero (f : BinaryFormat) (tie : Tie) : f.shortest tie 0 = ⟨0, 0⟩ := by
  simp [shortest]

/-- **The shortest decimal rounds to the number.** -/
theorem rounds_shortest (hbits : bits ≠ 0) : f.Rounds bits (f.shortest tie bits).value := by
  obtain ⟨d, hd, hcases⟩ := f.exists_shortest_eq tie hbits
  rw [hd, value_stripZeros]
  rcases hcases with rfl | hfound
  · rw [value_exactDecimal]
    exact f.rounds_value bits
  · obtain ⟨i, -, -, hpoint⟩ := exists_of_shortestFrom hfound
    exact (readsBack_onGrid hbits d.exponent).1 (Rounding.gridPoint?_eq_some hpoint).1

/-- The digits of the shortest decimal are all read. -/
theorem digits_shortest_lt (hf : f.Proper) (hfinite : bits < f.infinity) :
    (f.shortest tie bits).digits < 10 ^ f.digitLimit := by
  rcases eq_or_ne bits 0 with rfl | hbits
  · rw [shortest_zero]
    positivity
  obtain ⟨d, hd, hcases⟩ := f.exists_shortest_eq tie hbits
  rw [hd]
  apply (digits_stripZeros_le _ d).trans_lt
  rcases hcases with rfl | hfound
  · exact digits_exactDecimal_lt hf hfinite
  · obtain ⟨i, hi, hexp, hpoint⟩ := exists_of_shortestFrom hfound
    rw [hexp] at hpoint
    calc d.digits ≤ 10 ^ i := le_of_gridPoint? hbits hpoint
      _ < 10 ^ f.digitLimit := Nat.pow_lt_pow_right (by decide) (hi.trans_le hf.eighteen)

theorem digits_shortest_eq_zero_iff : (f.shortest tie bits).digits = 0 ↔ bits = 0 := by
  constructor
  · intro hzero
    by_contra hbits
    have hrounds : f.Rounds bits (f.shortest tie bits).value := rounds_shortest hbits
    exact (hrounds.pos hbits).ne' (Decimal.value_eq_zero_iff.2 hzero)
  · rintro rfl
    rw [shortest_zero]

/-- **The shortest decimal of a number is read as that number**, with whatever zeros at its end. -/
theorem ofDecimal_of_value_eq {d : Decimal} (hf : f.Proper) (hfinite : bits < f.infinity)
    (h : d.value = (f.shortest tie bits).value) : f.ofDecimal d.digits d.exponent = some bits := by
  rcases eq_or_ne bits 0 with rfl | hbits
  · have hdigits : d.digits = 0 := by
      rw [← Decimal.value_eq_zero_iff, h, Decimal.value_eq_zero_iff, shortest_zero]
    simp [ofDecimal, hdigits]
  · have hrounds : f.Rounds bits (f.shortest tie bits).value := rounds_shortest hbits
    rw [← h] at hrounds
    exact ofDecimal_of_rounds hf hbits hfinite hrounds

end BinaryFormat
end Slotted
