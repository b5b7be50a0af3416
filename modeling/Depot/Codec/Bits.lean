/-!
This module contains the bits of a block of bytes. Bit `i` is bit `i % 8` of byte `i / 8`, and a
number in consecutive bits stands least significant bit first.
-/

namespace Depot.Codec

/-- The byte at a position; zero behind the end. -/
@[inline]
def byteAt (src : ByteArray) (i : Nat) : Nat :=
  if h : i < src.size then (src[i]).toNat else 0

@[inline]
def bitAt (src : ByteArray) (i : Nat) : Nat :=
  (byteAt src (i / 8)) >>> (i % 8) % 2

/-- The number in the `count` bits from a position on. -/
def bitsAt (src : ByteArray) (pos : Nat) : (count : Nat) → Nat
  | 0 => 0
  | count + 1 => bitAt src pos + 2 * bitsAt src (pos + 1) count

/-- The number in the `count` bits from a position on, if they are all there. -/
def readBits? (src : ByteArray) (pos count : Nat) : Option Nat :=
  if pos + count ≤ src.size * 8 then some (bitsAt src pos count) else none

/-- The little-endian number in the `count` bytes from a position on. -/
def numberAt (src : ByteArray) (pos : Nat) : (count : Nat) → Nat
  | 0 => 0
  | count + 1 => byteAt src pos + 256 * numberAt src (pos + 1) count

/-- The `count` little-endian bytes of a number. -/
def numberBytes : (count n : Nat) → ByteArray
  | 0, _ => .empty
  | count + 1, n => ⟨#[n.toUInt8]⟩ ++ numberBytes count (n / 256)

theorem size_numberBytes (count n : Nat) : (numberBytes count n).size = count := by
  induction count generalizing n with
  | zero => rfl
  | succ count ih => rw [numberBytes, ByteArray.size_append, ih, Nat.add_comm]; rfl

end Depot.Codec
