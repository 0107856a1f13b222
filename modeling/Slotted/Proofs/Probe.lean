import Mathlib.Data.Fintype.EquivFin
import Mathlib.Data.Nat.ModEq
import Mathlib.Data.Nat.Prime.Basic
import Mathlib.Algebra.Order.Ring.Nat
import Mathlib.Tactic.Ring
import Mathlib.Tactic.WLOG
import Slotted.Table.Probe

/-!
# Triangular probing visits every slot once

The distances from the home slot are the triangular numbers `n * (n + 1) / 2`.  Modulo a power of
two no two of the first `len` of them agree: twice their difference is `(j - i) * (j + i + 1)`, and
of these two factors one is odd, so the other would have to be divisible by `2 * len`, which it is
too small for.  Being as many as there are slots, they are all slots.

## Main definitions

* `Probe.Tours` — what is asked of a probe sequence.

## Main results

* `Probe.iterate_start` — the moving probe is where the closed form says.
* `Probe.position_injective` — no slot is visited twice in the first `len` steps.
* `Probe.exists_pos_iterate_eq` — each slot is visited in the first `len` steps.
* `Probe.nextInWords?_eq` — no sum on the way to the next slot overflows.
* `Probe.tours_start` — a probe sequence is a permutation of the slots.
-/

namespace Slotted
namespace Probe

/-! ### The closed form -/

theorem two_mul_triangle (n : ℕ) : 2 * (n * (n + 1) / 2) = n * (n + 1) :=
  Nat.two_mul_div_two_of_even (Nat.even_mul_succ_self n)

theorem triangle_succ (n : ℕ) : (n + 1) * (n + 1 + 1) / 2 = n * (n + 1) / 2 + (n + 1) := by
  have h := two_mul_triangle n
  have h' := two_mul_triangle (n + 1)
  have hring : (n + 1) * (n + 1 + 1) = n * (n + 1) + 2 * (n + 1) := by ring
  omega

/-- The moving probe is where the closed form says. -/
theorem iterate_start (hash : UInt64) {len : ℕ} (hlen : len.isPowerOfTwo) (n : ℕ) :
    (start hash len).iterate n = ⟨position hash len n, n, len - 1⟩ := by
  obtain ⟨e, rfl⟩ := hlen
  induction n with
  | zero =>
    have hpos : hash.toNat &&& (2 ^ e - 1) = position hash (2 ^ e) 0 := by
      rw [Nat.and_two_pow_sub_one_eq_mod]
      rfl
    rw [iterate_zero, start, hpos]
  | succ n ih =>
    have hpos : (position hash (2 ^ e) n + (n + 1)) &&& (2 ^ e - 1)
        = position hash (2 ^ e) (n + 1) := by
      rw [Nat.and_two_pow_sub_one_eq_mod, position, position, Nat.mod_add_mod, triangle_succ,
        Nat.add_assoc]
    rw [iterate_succ, ih, next, hpos]

theorem pos_iterate_start (hash : UInt64) {len : ℕ} (hlen : len.isPowerOfTwo) (n : ℕ) :
    ((start hash len).iterate n).pos = position hash len n := by
  rw [iterate_start hash hlen]

theorem pos_iterate_lt (hash : UInt64) {len : ℕ} (hlen : len.isPowerOfTwo) (n : ℕ) :
    ((start hash len).iterate n).pos < len := by
  rw [pos_iterate_start hash hlen]
  exact Nat.mod_lt _ (Nat.pos_of_isPowerOfTwo hlen)

/-! ### Every slot once -/

/-- A difference of two triangular numbers, as a product of which one factor is odd. -/
theorem two_mul_triangle_sub (i d : ℕ) :
    2 * ((i + d) * (i + d + 1) / 2 - i * (i + 1) / 2) = d * (2 * i + d + 1) := by
  have h := two_mul_triangle i
  have h' := two_mul_triangle (i + d)
  have hring : (i + d) * (i + d + 1) = i * (i + 1) + d * (2 * i + d + 1) := by ring
  omega

/-- No slot is visited twice in the first `2 ^ e` steps. -/
theorem position_injective (hash : UInt64) (e : ℕ) {i j : ℕ} (hi : i < 2 ^ e) (hj : j < 2 ^ e)
    (h : position hash (2 ^ e) i = position hash (2 ^ e) j) : i = j := by
  -- the two play the same part, so let the second be `i + d`
  wlog hij : i ≤ j
  · exact (this hash e hj hi h.symm (by omega)).symm
  obtain ⟨d, rfl⟩ := Nat.exists_eq_add_of_le hij
  have hmod : i * (i + 1) / 2 ≡ (i + d) * (i + d + 1) / 2 [MOD 2 ^ e] :=
    Nat.ModEq.add_left_cancel' hash.toNat h
  have hle : i * (i + 1) / 2 ≤ (i + d) * (i + d + 1) / 2 :=
    Nat.div_le_div_right (Nat.mul_le_mul (by omega) (by omega))
  have hdvd : 2 ^ e * 2 ∣ d * (2 * i + d + 1) := by
    rw [← two_mul_triangle_sub, Nat.mul_comm]
    exact Nat.mul_dvd_mul_left 2 ((Nat.modEq_iff_dvd' hle).1 hmod)
  rw [← Nat.pow_succ] at hdvd
  rcases Nat.even_or_odd d with hd | hd
  · -- the second factor is odd, so `d` is a multiple of more than itself
    have hodd : Odd (2 * i + d + 1) := Even.add_one ((even_two_mul i).add hd)
    have hcop : Nat.Coprime (2 ^ (e + 1)) (2 * i + d + 1) :=
      (Nat.coprime_two_left.2 hodd).pow_left _
    have hd0 : d = 0 := by
      refine Nat.eq_zero_of_dvd_of_lt (hcop.dvd_of_dvd_mul_right hdvd) ?_
      rw [Nat.pow_succ]
      omega
    rw [hd0, Nat.add_zero]
  · -- `d` is odd, so the second factor is a multiple of more than itself
    have hcop : Nat.Coprime (2 ^ (e + 1)) d := (Nat.coprime_two_left.2 hd).pow_left _
    have hle' := Nat.le_of_dvd (by omega) (hcop.dvd_of_dvd_mul_left hdvd)
    rw [Nat.pow_succ] at hle'
    omega

/-- Each slot is visited in the first `len` steps. -/
theorem exists_pos_iterate_eq (hash : UInt64) {len : ℕ} (hlen : len.isPowerOfTwo) {i : ℕ}
    (hi : i < len) : ∃ n, n < len ∧ ((start hash len).iterate n).pos = i := by
  have hlt := pos_iterate_lt hash hlen
  -- as many steps as slots: what is injective is onto
  let visit : Fin len → Fin len := fun n => ⟨((start hash len).iterate n).pos, hlt n⟩
  have hinj : Function.Injective visit := by
    intro a b hab
    have hpos : ((start hash len).iterate a).pos = ((start hash len).iterate b).pos :=
      congrArg Fin.val hab
    rw [pos_iterate_start hash hlen, pos_iterate_start hash hlen] at hpos
    obtain ⟨e, rfl⟩ := hlen
    exact Fin.ext (position_injective hash e a.isLt b.isLt hpos)
  obtain ⟨n, hn⟩ := Finite.injective_iff_surjective.1 hinj ⟨i, hi⟩
  exact ⟨n, n.isLt, congrArg Fin.val hn⟩

/-- The slots of the first `len` steps, in the order of the slots, are all slots. -/
theorem perm_pos_iterate (hash : UInt64) {len : ℕ} (hlen : len.isPowerOfTwo) :
    ((List.range len).map fun n => ((start hash len).iterate n).pos).Perm (List.range len) := by
  have hnodup : ((List.range len).map fun n => ((start hash len).iterate n).pos).Nodup := by
    apply List.Nodup.map_on _ List.nodup_range
    intro i hi j hj h
    rw [List.mem_range] at hi hj
    rw [pos_iterate_start hash hlen, pos_iterate_start hash hlen] at h
    obtain ⟨e, rfl⟩ := hlen
    exact position_injective hash e hi hj h
  apply (List.perm_ext_iff_of_nodup hnodup List.nodup_range).2
  intro i
  rw [List.mem_map, List.mem_range]
  constructor
  · rintro ⟨n, -, rfl⟩
    exact pos_iterate_lt hash hlen n
  · intro hi
    obtain ⟨n, hn, hpos⟩ := exists_pos_iterate_eq hash hlen hi
    exact ⟨n, List.mem_range.2 hn, hpos⟩

/-! ### The arithmetic of machine words -/

/-- No sum on the way to the next slot overflows: both summands are at most the length of the table,
and the greatest power of two that is a word is half of what overflows. -/
theorem nextInWords?_eq (hash : UInt64) {len : ℕ} (hlen : len.isPowerOfTwo) (hword : len ≤ maxWord)
    {n : ℕ} (hn : n < len) :
    ((start hash len).iterate n).nextInWords? = some ((start hash len).iterate (n + 1)) := by
  have hpos := pos_iterate_lt hash hlen n
  have hstep : ((start hash len).iterate n).step = n := by rw [iterate_start hash hlen]
  have htwice : 2 * len ≤ maxWord + 1 := by
    obtain ⟨e, rfl⟩ := hlen
    have he : e < 64 := (Nat.pow_lt_pow_iff_right (by decide)).1 (Nat.lt_succ_of_le hword)
    calc 2 * 2 ^ e = 2 ^ (e + 1) := by rw [Nat.pow_succ, Nat.mul_comm]
      _ ≤ 2 ^ 64 := Nat.pow_le_pow_right (by decide) he
  rw [iterate_succ, nextInWords?, next, hstep, word?_eq_some (by omega)]
  simp only [Option.bind_eq_bind, Option.bind_some]
  rw [word?_eq_some (by omega)]
  rfl

/-! ### Probe sequences -/

/-- What is asked of the probe sequence of a hash in a table of `len` slots. -/
structure Tours (hash : UInt64) (len : ℕ) : Prop where
  /-- The first `len` steps visit all slots, each of them once. -/
  perm : ((List.range len).map fun n => ((start hash len).iterate n).pos).Perm (List.range len)
  /-- A machine computes them without overflow. -/
  inWords : ∀ n < len,
    ((start hash len).iterate n).nextInWords? = some ((start hash len).iterate (n + 1))
  /-- What is true of a slot is met on the way, however many other slots it is false of. -/
  meets : ∀ P : ℕ → Prop, (∃ i < len, P i) → ∃ n < len, P ((start hash len).iterate n).pos

/-- **Triangular probing is a permutation.**  For every hash and every power of two that is a
machine word, the probe sequence visits each slot of a table of that length once before it visits
one again. -/
theorem tours_start (hash : UInt64) {k : ℕ} (hword : 2 ^ k ≤ maxWord) : Tours hash (2 ^ k) where
  perm := perm_pos_iterate hash ⟨k, rfl⟩
  inWords := by
    intro n hn
    exact nextInWords?_eq hash ⟨k, rfl⟩ hword hn
  meets := by
    rintro P ⟨i, hi, hP⟩
    obtain ⟨n, hn, hpos⟩ := exists_pos_iterate_eq hash ⟨k, rfl⟩ hi
    exact ⟨n, hn, hpos ▸ hP⟩

/-- For example from slot 5 of eight slots.  In the longest table a machine word can count, the last
of `2 ^ 63` steps overflows no sum. -/
theorem tours_start_eight :
    2 ^ 3 ≤ maxWord ∧ Tours 0xfd (2 ^ 3) ∧
      ((List.range 8).map fun n => ((start 0xfd 8).iterate n).pos) = [5, 6, 0, 3, 7, 4, 2, 1] ∧
      2 ^ 63 ≤ maxWord ∧ Tours 0xfd (2 ^ 63) :=
  ⟨by decide, tours_start 0xfd (by decide), by decide, by decide, tours_start 0xfd (by decide)⟩

end Probe
end Slotted
