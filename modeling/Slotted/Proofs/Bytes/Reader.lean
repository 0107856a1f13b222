import Mathlib.Algebra.Order.Ring.Nat
import Slotted.Bytes.Encoding
import Slotted.Proofs.Scalar

/-!
# Reading back what was written

A reader *reads* some bytes as a value if, with these bytes in front, it answers with the value and
leaves what comes after them.  Readers that are put together read the bytes that are.

## Main definitions

* `ByteReader.Reads` — a reader reads some bytes as a value.

## Main results

* `ofLittleEndian_littleEndian` — the number of the bytes of a number.
* `ByteReader.Reads.bind` — one reader after another.
* `ByteReader.reads_number`, `reads_tag`, `reads_count`, `reads_bool`, `exists_reads_scalar` — the
  parts of an encoding.
* `ByteReader.run_entryCount` — the number of entries, which looks at the bytes that follow.
-/

namespace Slotted

/-! ### Numbers -/

@[simp] theorem length_littleEndian (width n : ℕ) : (littleEndian width n).length = width := by
  induction width generalizing n with
  | zero => rfl
  | succ width ih => rw [littleEndian, List.length_cons, ih]

theorem ofLittleEndian_littleEndian {width n : ℕ} (h : n < 256 ^ width) :
    ofLittleEndian (littleEndian width n) = n := by
  induction width generalizing n with
  | zero =>
    rw [Nat.pow_zero] at h
    rw [littleEndian, ofLittleEndian]
    omega
  | succ width ih =>
    have hdiv : n / 256 < 256 ^ width := by
      rw [Nat.pow_succ] at h
      exact Nat.div_lt_of_lt_mul (by rwa [Nat.mul_comm])
    rw [littleEndian, ofLittleEndian, ih hdiv, UInt8.toNat_ofNat']
    omega

namespace ByteReader

variable {α β : Type}

/-- The reader answers with `a` for some bytes, whatever comes after them. -/
def Reads (r : ByteReader α) (bytes : List UInt8) (a : α) : Prop :=
  ∀ rest, r.run (bytes ++ rest) = .ok (a, rest)

theorem reads_pure (a : α) : Reads (pure a) [] a := fun _ => rfl

theorem run_bind_of_eq_ok {r : ByteReader α} {f : α → ByteReader β} {bytes rest : List UInt8}
    {a : α} (h : r.run bytes = .ok (a, rest)) : (r >>= f).run bytes = (f a).run rest := by
  rw [StateT.run_bind, h]
  rfl

/-- A reader that looks at the input first. -/
theorem run_get_bind (f : List UInt8 → ByteReader α) (bytes : List UInt8) :
    (get >>= f).run bytes = (f bytes).run bytes := rfl

/-- One reader after another. -/
theorem Reads.bind {r : ByteReader α} {f : α → ByteReader β} {bytes bytes' : List UInt8} {a : α}
    {b : β} (hr : Reads r bytes a) (hf : Reads (f a) bytes' b) :
    Reads (r >>= f) (bytes ++ bytes') b := by
  intro rest
  rw [List.append_assoc, run_bind_of_eq_ok (hr _)]
  exact hf rest

/-- A reader after which nothing more is read. -/
theorem Reads.bind_nil {r : ByteReader α} {f : α → ByteReader β} {bytes : List UInt8} {a : α}
    {b : β} (hr : Reads r bytes a) (hf : Reads (f a) [] b) : Reads (r >>= f) bytes b := by
  have hbind := hr.bind hf
  rwa [List.append_nil] at hbind

/-- A reader after a computation that reports rebuilds. -/
theorem reads_after {x : Traced α} {next : α → ByteReader (Traced β)} {bytes : List UInt8}
    {y : Traced β} (h : Reads (next x.val) bytes y) :
    Reads (after x next) bytes ⟨y.val, x.rebuilds ++ y.rebuilds⟩ := by
  intro rest
  rw [after, run_bind_of_eq_ok (h rest)]
  rfl

/-! ### The parts of an encoding -/

theorem split?_append (taken rest : List UInt8) :
    split? taken.length (taken ++ rest) = some (taken, rest) := by
  induction taken with
  | nil => rfl
  | cons b taken ih => rw [List.length_cons, List.cons_append, split?, ih, Option.map_some]

theorem reads_take (bytes : List UInt8) : Reads (take bytes.length) bytes bytes := by
  intro rest
  rw [take, run_get_bind, split?_append]
  rfl

theorem reads_number {width n : ℕ} (h : n < 256 ^ width) :
    Reads (number width) (littleEndian width n) n := by
  have htake := reads_take (littleEndian width n)
  rw [length_littleEndian] at htake
  refine htake.bind_nil (b := n) ?_
  rw [ofLittleEndian_littleEndian h]
  exact reads_pure n

theorem reads_tag (expected : ℕ) : Reads (tag expected) [UInt8.ofNat expected] () := by
  refine (reads_take [UInt8.ofNat expected]).bind_nil (b := ()) ?_
  rw [if_pos rfl]
  exact reads_pure ()

theorem lt_of_le_maxWord {n : ℕ} (h : n ≤ maxWord) : n < 256 ^ 8 := by
  have hmax : maxWord = 2 ^ 64 - 1 := rfl
  omega

theorem reads_count {n : ℕ} (hpos : n ≠ 0) (hle : n ≤ maxWord) : Reads count (wordBytes n) n := by
  refine (reads_number (lt_of_le_maxWord hle)).bind_nil (b := n) ?_
  rw [if_neg hpos]
  exact reads_pure n

theorem reads_bool (b : Bool) : Reads bool (boolBytes b) b := by
  cases b with
  | false => exact fun _ => rfl
  | true => exact fun _ => rfl

/-- A value is read back with the same key; a NaN is read back as the canonical one. -/
theorem exists_reads_scalar {k : Kind} (v : Scalar k) :
    ∃ w : Scalar k, w.key = v.key ∧ Reads (scalar k) v.toBytes w := by
  obtain ⟨w, hw, hkey⟩ := v.exists_ofBits?_key
  refine ⟨w, hkey, ?_⟩
  refine (reads_number v.key_lt).bind_nil (b := w) ?_
  rw [UInt64.ofNat_toNat, hw]
  exact reads_pure w

/-- The number of entries is read if there are bytes enough for them. -/
theorem run_entryCount {width n : ℕ} {rest : List UInt8} (hle : n ≤ maxWord)
    (hrest : n * width ≤ rest.length) :
    (entryCount width).run (wordBytes n ++ rest) = .ok (n, rest) := by
  rw [entryCount, wordBytes, run_bind_of_eq_ok (reads_number (lt_of_le_maxWord hle) rest)]
  rw [run_get_bind, if_pos hrest]
  rfl

/-- A reader that uses up the input. -/
theorem parse_eq_ok {r : ByteReader α} {bytes : List UInt8} {a : α}
    (h : r.run bytes = .ok (a, [])) : r.parse bytes = .ok a := by
  rw [parse, StateT.run_bind, h]
  rfl

/-- A reader that fails. -/
theorem parse_eq_error {r : ByteReader α} {bytes : List UInt8} {e : Failure}
    (h : r.run bytes = .error e) : r.parse bytes = .error e := by
  rw [parse, StateT.run_bind, h]
  rfl

end ByteReader

end Slotted
