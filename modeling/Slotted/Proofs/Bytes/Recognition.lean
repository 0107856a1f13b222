import Slotted.Proofs.Bytes.Reader

/-!
# What a reader takes

To see which inputs a reader accepts one has to know what it does with all of them.  A reader
*recognises* the forms of a grammar if it either takes a form off the front of the input and answers
with what it is a form of, or rejects the input as malformed.  It has no third way out: it does not
abort, and it fails for no other reason.

## Main definitions

* `ByteReader.Outcome`, `ByteReader.Recognizes` — a reader recognises the forms of a grammar.
* `Scalar.rawBytes` — the bytes of the pattern of a value, be it a NaN or not.

## Main results

* `ByteReader.Recognizes.bind` — one reader after another.
* `ByteReader.recognizes_number`, `recognizes_tag`, `recognizes_count`, `recognizes_bool`,
  `recognizes_scalar` — the parts of an encoding.
* `ByteReader.header_cases` — a tag and a number of entries, for which there are bytes enough.
* `ByteReader.parse_cases` — a reader that has to use up the input.
-/

namespace Slotted

/-! ### Numbers -/

theorem ofLittleEndian_lt (bytes : List UInt8) : ofLittleEndian bytes < 256 ^ bytes.length := by
  induction bytes with
  | nil => exact Nat.one_pos
  | cons b bytes ih =>
    have hb := b.toNat_lt
    rw [ofLittleEndian, List.length_cons, Nat.pow_succ]
    omega

theorem littleEndian_ofLittleEndian (bytes : List UInt8) :
    littleEndian bytes.length (ofLittleEndian bytes) = bytes := by
  induction bytes with
  | nil => rfl
  | cons b bytes ih =>
    have hb := b.toNat_lt
    have hdiv : (b.toNat + 256 * ofLittleEndian bytes) / 256 = ofLittleEndian bytes := by omega
    have hlow : UInt8.ofNat (b.toNat + 256 * ofLittleEndian bytes) = b := by
      apply UInt8.toNat_inj.1
      rw [UInt8.toNat_ofNat']
      omega
    rw [ofLittleEndian, List.length_cons, littleEndian, hdiv, hlow, ih]

theorem le_maxWord_of_lt {n : ℕ} (h : n < 256 ^ 8) : n ≤ maxWord := by
  have hmax : maxWord = 2 ^ 64 - 1 := rfl
  omega

/-- The bytes of the pattern of a value.  Those of its encoding are the same, unless it is a NaN
with a sign or a payload of its own. -/
def Scalar.rawBytes {k : Kind} (v : Scalar k) : List UInt8 := littleEndian k.width v.bits.toNat

theorem Scalar.length_rawBytes {k : Kind} (v : Scalar k) : v.rawBytes.length = k.width :=
  length_littleEndian k.width v.bits.toNat

theorem Kind.wrap_ofNat {k : Kind} {n : ℕ} (h : n < 256 ^ k.width) :
    k.wrap (UInt64.ofNat n) = UInt64.ofNat n := by
  have hpow : 256 ^ k.width = 2 ^ (8 * k.width) := by rw [Nat.pow_mul]
  have hle : 256 ^ k.width ≤ 256 ^ 8 := Nat.pow_le_pow_right (by decide) k.width_le
  have hword : (UInt64.ofNat n).toNat = n := UInt64.toNat_ofNat_of_lt' (lt_of_lt_of_le h hle)
  have hmod : (UInt64.ofNat n).toNat % 2 ^ (8 * k.width) = n := by
    rw [hword, Nat.mod_eq_of_lt (by rwa [← hpow])]
  cases k with
  | char => rfl
  | _ => exact congrArg UInt64.ofNat hmod

/-- A number of the width of the kind is the pattern of the value that it is read as. -/
theorem Scalar.toNat_bits_of_ofBits? {k : Kind} {n : ℕ} {v : Scalar k} (h : n < 256 ^ k.width)
    (hv : Scalar.ofBits? k (UInt64.ofNat n) = some v) : v.bits.toNat = n := by
  have hle : 256 ^ k.width ≤ 256 ^ 8 := Nat.pow_le_pow_right (by decide) k.width_le
  rw [ofBits?] at hv
  split at hv
  · rw [← Option.some.inj hv]
    show (k.wrap (UInt64.ofNat n)).toNat = n
    rw [Kind.wrap_ofNat h]
    exact UInt64.toNat_ofNat_of_lt' (lt_of_lt_of_le h hle)
  · exact absurd hv (by simp)

namespace ByteReader

variable {α β : Type} {G : List UInt8 → α → Prop} {H : α → List UInt8 → β → Prop}

/-- What may come of some input: a form of the grammar is taken off its front and the rest is left,
or it is rejected as malformed. -/
inductive Outcome (G : List UInt8 → α → Prop) (input : List UInt8) :
    Except Failure (α × List UInt8) → Prop where
  /-- A form of `a` is taken off. -/
  | taken {bytes rest : List UInt8} {a : α} :
      input = bytes ++ rest → G bytes a → Outcome G input (.ok (a, rest))
  /-- The input is rejected. -/
  | rejected (why : EncodingFault) : Outcome G input (.error (.error (.malformedInput why)))

/-- The reader takes forms of the grammar off the input, and rejects the input otherwise. -/
def Recognizes (r : ByteReader α) (G : List UInt8 → α → Prop) : Prop :=
  ∀ input, Outcome G input (r.run input)

theorem Outcome.mono {G' : List UInt8 → α → Prop} {input : List UInt8}
    {answer : Except Failure (α × List UInt8)} (h : Outcome G input answer)
    (hG : ∀ {bytes a}, G bytes a → G' bytes a) : Outcome G' input answer := by
  cases h with
  | taken heq hform => exact .taken heq (hG hform)
  | rejected why => exact .rejected why

theorem Recognizes.mono {r : ByteReader α} {G' : List UInt8 → α → Prop} (hr : Recognizes r G)
    (hG : ∀ {bytes a}, G bytes a → G' bytes a) : Recognizes r G' :=
  fun input => (hr input).mono hG

theorem recognizes_pure (a : α) : Recognizes (pure a) fun bytes a' => bytes = [] ∧ a' = a :=
  fun input => .taken (List.nil_append input).symm ⟨rfl, rfl⟩

theorem recognizes_fail (why : EncodingFault) : Recognizes (fail why) G :=
  fun _ => .rejected why

theorem run_bind_of_eq_error {r : ByteReader α} {f : α → ByteReader β} {bytes : List UInt8}
    {e : Failure} (h : r.run bytes = .error e) : (r >>= f).run bytes = .error e := by
  rw [StateT.run_bind, h]
  rfl

/-- One reader after another. -/
theorem Recognizes.bind {r : ByteReader α} {f : α → ByteReader β} (hr : Recognizes r G)
    (hf : ∀ a bytes, G bytes a → Recognizes (f a) (H a)) :
    Recognizes (r >>= f) fun bytes b => ∃ a l m, bytes = l ++ m ∧ G l a ∧ H a m b := by
  intro input
  have hinput := hr input
  generalize hrun : r.run input = answer at hinput
  cases hinput with
  | rejected why =>
    rw [run_bind_of_eq_error hrun]
    exact .rejected why
  | @taken bytes rest a heq hform =>
    rw [run_bind_of_eq_ok hrun]
    -- the second reader goes on with the rest
    have hrest := hf a bytes hform rest
    generalize (f a).run rest = answer at hrest ⊢
    cases hrest with
    | rejected why => exact .rejected why
    | @taken bytes' rest' b heq' hform' =>
      have happend : input = bytes ++ bytes' ++ rest' := by rw [heq, heq', List.append_assoc]
      exact .taken happend ⟨a, bytes, bytes', rfl, hform, hform'⟩

/-- A reader after a computation that reports rebuilds, for a grammar that is not about them. -/
theorem recognizes_after {C D : Type} {G : List UInt8 → D → Prop} {x : Traced C}
    {next : C → ByteReader (Traced D)}
    (h : Recognizes (next x.val) fun bytes y => G bytes y.val) :
    Recognizes (after x next) fun bytes y => G bytes y.val := by
  have hbind := h.bind fun (y : Traced D) _ _ =>
    recognizes_pure (⟨y.val, x.rebuilds ++ y.rebuilds⟩ : Traced D)
  refine hbind.mono ?_
  rintro bytes z ⟨y, l, m, rfl, hG, rfl, rfl⟩
  rwa [List.append_nil]

/-! ### The parts of an encoding -/

theorem eq_append_of_split? {n : ℕ} {input taken rest : List UInt8}
    (h : split? n input = some (taken, rest)) : input = taken ++ rest ∧ taken.length = n := by
  induction n generalizing input taken with
  | zero =>
    rw [split?] at h
    cases h
    exact ⟨rfl, rfl⟩
  | succ n ih =>
    cases input with
    | nil => exact absurd h (by simp [split?])
    | cons b input =>
      rw [split?, Option.map_eq_some_iff] at h
      obtain ⟨⟨taken', rest'⟩, htaken, heq⟩ := h
      cases heq
      obtain ⟨happend, hlength⟩ := ih htaken
      exact ⟨by rw [happend, List.cons_append], by rw [List.length_cons, hlength]⟩

theorem recognizes_take (n : ℕ) :
    Recognizes (take n) fun bytes taken => bytes = taken ∧ taken.length = n := by
  intro input
  rw [take, run_get_bind]
  cases hsplit : split? n input with
  | none => exact .rejected .endOfInput
  | some answer =>
    obtain ⟨happend, hlength⟩ := eq_append_of_split? hsplit
    exact .taken happend ⟨rfl, hlength⟩

theorem recognizes_number (width : ℕ) :
    Recognizes (number width) fun bytes n => bytes = littleEndian width n ∧ n < 256 ^ width := by
  refine ((recognizes_take width).bind (f := fun taken => pure (ofLittleEndian taken))
    fun taken _ _ => recognizes_pure (ofLittleEndian taken)).mono ?_
  rintro bytes n ⟨taken, l, m, rfl, ⟨rfl, rfl⟩, rfl, rfl⟩
  rw [List.append_nil, littleEndian_ofLittleEndian]
  exact ⟨rfl, ofLittleEndian_lt l⟩

theorem recognizes_tag (expected : ℕ) :
    Recognizes (tag expected) fun bytes _ => bytes = [UInt8.ofNat expected] := by
  refine ((recognizes_take 1).bind
    (H := fun taken bytes _ => bytes = [] ∧ taken = [UInt8.ofNat expected])
    fun taken _ _ => ?_).mono ?_
  · by_cases htag : taken = [UInt8.ofNat expected]
    · rw [if_pos htag]
      exact (recognizes_pure ()).mono fun h => ⟨h.1, htag⟩
    · rw [if_neg htag]
      exact recognizes_fail .kindTag
  · rintro bytes _ ⟨taken, l, m, rfl, ⟨rfl, -⟩, rfl, htag⟩
    rw [List.append_nil, htag]

theorem recognizes_count :
    Recognizes count fun bytes n => bytes = wordBytes n ∧ n ≠ 0 ∧ n ≤ maxWord := by
  refine ((recognizes_number 8).bind (H := fun n bytes n' => bytes = [] ∧ n' = n ∧ n ≠ 0)
    fun n _ _ => ?_).mono ?_
  · by_cases hzero : n = 0
    · rw [if_pos hzero]
      exact recognizes_fail .zeroCount
    · rw [if_neg hzero]
      exact (recognizes_pure n).mono fun h => ⟨h.1, h.2, hzero⟩
  · rintro bytes n ⟨n', l, m, rfl, ⟨rfl, hlt⟩, rfl, rfl, hne⟩
    rw [List.append_nil]
    exact ⟨rfl, hne, le_maxWord_of_lt hlt⟩

theorem recognizes_scalar (k : Kind) :
    Recognizes (scalar k) fun bytes v => bytes = v.rawBytes := by
  refine ((recognizes_number k.width).bind
    (H := fun n bytes v => bytes = [] ∧ Scalar.ofBits? k (UInt64.ofNat n) = some v)
    fun n _ _ => ?_).mono ?_
  · cases hv : Scalar.ofBits? k (UInt64.ofNat n) with
    | none => exact recognizes_fail .value
    | some v => exact (recognizes_pure v).mono fun h => ⟨h.1, congrArg some h.2.symm⟩
  · rintro bytes v ⟨n, l, m, rfl, ⟨rfl, hlt⟩, rfl, hv⟩
    rw [List.append_nil, Scalar.rawBytes, Scalar.toNat_bits_of_ofBits? hlt hv]

/-- A value is read from the bytes of its pattern. -/
theorem reads_scalar {k : Kind} (v : Scalar k) : Reads (scalar k) v.rawBytes v := by
  refine (reads_number (Kind.holds_lt v.holds)).bind_nil (b := v) ?_
  rw [UInt64.ofNat_toNat, Scalar.ofBits?_bits]
  exact reads_pure v

theorem recognizes_bool : Recognizes bool fun bytes b => bytes = boolBytes b := by
  refine ((recognizes_number 1).bind
    (H := fun n bytes b => bytes = [] ∧ n = if b then 1 else 0) fun n _ _ => ?_).mono ?_
  · match n with
    | 0 => exact (recognizes_pure false).mono fun h => ⟨h.1, by rw [h.2]; rfl⟩
    | 1 => exact (recognizes_pure true).mono fun h => ⟨h.1, by rw [h.2]; rfl⟩
    | n + 2 => exact recognizes_fail .value
  · rintro bytes b ⟨n, l, m, rfl, ⟨rfl, -⟩, rfl, rfl⟩
    cases b <;> rfl

/-! ### A whole input -/

/-- The input is rejected, or it starts with the tag and a number of entries, what follows is long
enough for them, and the reader goes on there. -/
theorem header_cases (expected width : ℕ) (f : ℕ → ByteReader β) (input : List UInt8) :
    (∃ why, (do tag expected; let n ← entryCount width; f n : ByteReader β).run input
        = .error (.error (.malformedInput why))) ∨
      ∃ n rest, input = UInt8.ofNat expected :: (wordBytes n ++ rest) ∧ n ≤ maxWord ∧
        n * width ≤ rest.length ∧
        (do tag expected; let n ← entryCount width; f n : ByteReader β).run input
          = (f n).run rest := by
  have htag := recognizes_tag expected input
  generalize hrun : (tag expected).run input = answer at htag
  cases htag with
  | rejected why => exact Or.inl ⟨why, run_bind_of_eq_error hrun⟩
  | @taken _ input' _ heq hform =>
    subst hform
    have hnumber := recognizes_number 8 input'
    rw [run_bind_of_eq_ok hrun, entryCount, bind_assoc]
    generalize hrun' : (number 8).run input' = answer at hnumber
    cases hnumber with
    | rejected why => exact Or.inl ⟨why, run_bind_of_eq_error hrun'⟩
    | @taken _ rest n heq' hform =>
      obtain ⟨rfl, hlt⟩ := hform
      rw [run_bind_of_eq_ok hrun', bind_assoc, run_get_bind]
      -- the number of entries is checked against the bytes that are left
      by_cases hroom : n * width ≤ rest.length
      · refine Or.inr ⟨n, rest, by rw [heq, heq']; rfl, le_maxWord_of_lt hlt, hroom, ?_⟩
        rw [if_pos hroom, pure_bind]
      · refine Or.inl ⟨.endOfInput, ?_⟩
        rw [if_neg hroom]
        rfl

theorem parse_congr {r r' : ByteReader α} {input input' : List UInt8}
    (h : r.run input = r'.run input') : r.parse input = r'.parse input' := by
  rw [parse, parse, StateT.run_bind, StateT.run_bind, h]

/-- A reader that has to use up the input takes it as a form, or rejects it. -/
theorem parse_cases {r : ByteReader α} (hr : Recognizes r G) (input : List UInt8) :
    (∃ a, G input a ∧ r.parse input = .ok a) ∨
      ∃ why, r.parse input = .error (.error (.malformedInput why)) := by
  have hinput := hr input
  generalize hrun : r.run input = answer at hinput
  cases hinput with
  | rejected why => exact Or.inr ⟨why, parse_eq_error hrun⟩
  | @taken bytes rest a heq hform =>
    cases rest with
    | nil =>
      rw [List.append_nil] at heq
      subst heq
      exact Or.inl ⟨a, hform, parse_eq_ok hrun⟩
    | cons b rest =>
      refine Or.inr ⟨.trailing, ?_⟩
      rw [parse, StateT.run_bind, hrun]
      rfl

end ByteReader

end Slotted
