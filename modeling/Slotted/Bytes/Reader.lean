import Slotted.Error
import Slotted.Scalar

/-!
# Reading and writing bytes

Numbers are written in a fixed number of bytes, the least significant first.  A reader takes bytes
off the front of the input and fails with the reason when there are too few or they make no sense.

## Main definitions

* `littleEndian`, `ofLittleEndian` — the bytes of a number, and the number of some bytes.
* `ByteReader` — the type of readers, with `take`, `number`, `count`, `finish` and others.
-/

namespace Slotted

/-- The lowest `width` bytes of a number, the least significant first. -/
def littleEndian : (width : Nat) → Nat → List UInt8
  | 0, _ => []
  | width + 1, n => UInt8.ofNat n :: littleEndian width (n / 256)

/-- The number of some bytes, the least significant first. -/
def ofLittleEndian : List UInt8 → Nat
  | [] => 0
  | b :: bs => b.toNat + 256 * ofLittleEndian bs

/-- The bytes of a machine word. -/
def wordBytes (n : Nat) : List UInt8 := littleEndian 8 n

/-- The bytes of a value: its key, cut to the width of the kind. -/
def Scalar.toBytes {k : Kind} (v : Scalar k) : List UInt8 := littleEndian k.width v.key.toNat

/-- The mark that tells the tag of a bag from that of a set. -/
def bagMark : Nat := 0x80

/-- A reader of a value of type `α` from the front of the input. -/
abbrev ByteReader := StateT (List UInt8) (Except Failure)

namespace ByteReader

/-- Rejects the input. -/
def fail {α : Type} (why : EncodingFault) : ByteReader α :=
  throw (.error (.malformedInput why))

/-- The first `n` bytes and the rest, if there are so many. -/
def split? : (n : Nat) → List UInt8 → Option (List UInt8 × List UInt8)
  | 0, bytes => some ([], bytes)
  | _ + 1, [] => none
  | n + 1, b :: bytes => (split? n bytes).map fun (taken, rest) => (b :: taken, rest)

/-- The next `n` bytes. -/
def take (n : Nat) : ByteReader (List UInt8) := do
  match split? n (← get) with
  | none => fail .endOfInput
  | some (taken, rest) =>
    set rest
    return taken

/-- The next byte has to be the given tag. -/
def tag (expected : Nat) : ByteReader Unit := do
  let bytes ← take 1
  if bytes = [UInt8.ofNat expected] then return ()
  else fail .kindTag

/-- A number of `width` bytes. -/
def number (width : Nat) : ByteReader Nat := do
  return ofLittleEndian (← take width)

/-- The number of entries of `width` bytes that follow; the input has to be long enough for them. -/
def entryCount (width : Nat) : ByteReader Nat := do
  let n ← number 8
  let rest ← get
  if n * width ≤ rest.length then return n
  else fail .endOfInput

/-- A number of occurrences, which is not zero. -/
def count : ByteReader Nat := do
  let n ← number 8
  if n = 0 then fail .zeroCount else return n

/-- A value of the kind. -/
def scalar (k : Kind) : ByteReader (Scalar k) := do
  match Scalar.ofBits? k (UInt64.ofNat (← number k.width)) with
  | some v => return v
  | none => fail .value

/-- A truth value, in one byte. -/
def bool : ByteReader Bool := do
  match ← number 1 with
  | 0 => return false
  | 1 => return true
  | _ => fail .value

/-- The input has to be used up. -/
def finish : ByteReader Unit := do
  if (← get).isEmpty then return () else fail .trailing

/-- What a reader makes of an input that it has to use up. -/
def parse {α : Type} (r : ByteReader α) (bytes : List UInt8) : Except Failure α := do
  let (a, _) ← StateT.run (do let a ← r; finish; return a) bytes
  return a

end ByteReader

end Slotted
