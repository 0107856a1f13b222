import Slotted.Bytes.Reader
import Slotted.Collection

/-!
# The binary encoding of containers

An encoding is the tag of the kind, marked for bags, the number of distinct values as a word, and
the values in slot order; in a bag each value is followed by its count.  A NaN is encoded by its
key, so the sign and payload of the one stored are lost.

A decoder accepts what is an encoding of some container and nothing else: values may not repeat,
counts may not be zero nor overflow together, and no byte may be left over.

## Main definitions

* `encodeSet`, `encodeBag` — the encodings, given the tag and how a value is written.
* `decodeSet`, `decodeBag` — the readers, given the tag and how a value is read.
* `Encoded` — the containers that have an encoding: sets and bags, of scalars and of truth values.
-/

namespace Slotted

/-! ### Writing -/

/-- The encoding of a set. -/
def encodeSet {C α : Type} [Collection C α] (tag : Nat) (value : α → List UInt8) (c : C) :
    List UInt8 :=
  UInt8.ofNat tag :: (wordBytes (Collection.size c) ++ (Collection.toList c).flatMap value)

/-- The encoding of a bag. -/
def encodeBag {C α : Type} [Bag C α] (tag : Nat) (value : α → List UInt8) (c : C) : List UInt8 :=
  let entries := Counted.distinct c
  UInt8.ofNat (tag + bagMark) ::
    (wordBytes entries.length ++ entries.flatMap fun (a, n) => value a ++ wordBytes n)

/-! ### Reading -/

/-- What a reader makes of the container in a computation that reports rebuilds. -/
def ByteReader.after {C D : Type} (x : Traced C) (next : C → ByteReader (Traced D)) :
    ByteReader (Traced D) := do
  let y ← next x.val
  return ⟨y.val, x.rebuilds ++ y.rebuilds⟩

/-- Reads `n` elements that the set does not have yet, and adds them. -/
def readElements {C α : Type} [Collection C α] (value : ByteReader α) :
    (n : Nat) → C → ByteReader (Traced C)
  | 0, c => return pure c
  | n + 1, c => do
    ByteReader.after (Collection.add c (← value)) fun
      | (.ok true, c) => readElements value n c
      | (.ok false, _) => ByteReader.fail .duplicate
      | (.error a, _) => throw (.abort a)

/-- Reads a set, up to the end of its elements.  `width` is the size of a value, and `allocate`
makes the set to put them in. -/
def decodeSet {C α : Type} [Collection C α] (tag width : Nat) (value : ByteReader α)
    (allocate : Nat → Except Failure C) : ByteReader (Traced C) := do
  ByteReader.tag tag
  let n ← ByteReader.entryCount width
  let c ← MonadExcept.ofExcept (allocate n)
  readElements value n c

/-- Reads `n` values that the bag does not have yet, each with its count, and adds them; `total` is
the sum of the counts read so far. -/
def readEntries {C α : Type} [Bag C α] (value : ByteReader α) :
    (n : Nat) → (total : Nat) → C → ByteReader (Traced C)
  | 0, _, c => return pure c
  | n + 1, total, c => do
    let a ← value
    let count ← ByteReader.count
    match addCount? total count with
    | none => ByteReader.fail .countOverflow
    | some total =>
      ByteReader.after (Bag.setOccurrences c a count) fun
        | (.ok 0, c) => readEntries value n total c
        | (.ok _, _) => ByteReader.fail .duplicate
        | (.error e, _) => throw (.abort e)

/-- Reads a bag, up to the end of its entries.  `width` is the size of a value, and `allocate` makes
the bag to put them in. -/
def decodeBag {C α : Type} [Bag C α] (tag width : Nat) (value : ByteReader α)
    (allocate : Nat → Except Failure C) : ByteReader (Traced C) := do
  ByteReader.tag (tag + bagMark)
  let n ← ByteReader.entryCount (width + 8)
  let c ← MonadExcept.ofExcept (allocate n)
  readEntries value n 0 c

/-! ### Containers -/

/-- A type of containers that are written to bytes and read back. -/
class Encoded (C : Type) where
  /-- The encoding of a container. -/
  toBytes : C → List UInt8
  /-- The container that some bytes encode. -/
  ofBytes : List UInt8 → Except Failure (Traced C)

export Encoded (toBytes ofBytes)

instance {k : Kind} : Encoded (ScalarSet k) where
  toBytes := encodeSet k.tag Scalar.toBytes
  ofBytes := (decodeSet k.tag k.width (ByteReader.scalar k) ScalarSet.tryWithCapacity).parse

instance {k : Kind} : Encoded (ScalarBag k) where
  toBytes := encodeBag k.tag Scalar.toBytes
  ofBytes := (decodeBag k.tag k.width (ByteReader.scalar k) ScalarBag.tryWithCapacity).parse

/-- The tag of the containers of truth values. -/
def boolTag : Nat := 0

/-- The byte of a truth value. -/
def boolBytes (b : Bool) : List UInt8 := [if b then 1 else 0]

instance : Encoded BoolSet where
  toBytes := encodeSet boolTag boolBytes
  ofBytes := (decodeSet boolTag 1 ByteReader.bool fun _ => .ok .empty).parse

instance : Encoded BoolBag where
  toBytes := encodeBag boolTag boolBytes
  ofBytes := (decodeBag boolTag 1 ByteReader.bool fun _ => .ok .empty).parse

end Slotted
