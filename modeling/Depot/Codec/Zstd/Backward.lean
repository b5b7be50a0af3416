import Depot.Codec.Bits

/-!
This module contains bit streams that are read from their end. The highest set bit of the last
byte marks the end of the stream and is no part of it.
-/

namespace Depot.Codec.Zstd

/-- A bit stream that begins at byte `low`, with the number of bits not read yet. -/
structure Backward where
  low : Nat
  /-- Negative once more bits have been read than there are. -/
  left : Int

namespace Backward

/-- The stream in the bytes from `low` up to `high`; none if it lacks the mark of its end. -/
def open? (src : ByteArray) (low high : Nat) : Option Backward :=
  if high ≤ low || src.size < high then none
  else
    let last := byteAt src (high - 1)
    if last = 0 then none else some ⟨low, Int.ofNat (8 * (high - 1 - low) + last.log2)⟩

/-- The number in the next `count` bits. Bits before the beginning count as zero. -/
def peek (b : Backward) (src : ByteArray) (count : Nat) : Nat :=
  match b.left with
  | .negSucc _ => 0
  | .ofNat left =>
    if count ≤ left then bitsAt src (b.low * 8 + (left - count)) count
    else bitsAt src (b.low * 8) left <<< (count - left)

/-- The stream behind the next `count` bits. -/
def skip (b : Backward) (count : Nat) : Backward :=
  { b with left := b.left - count }

/-- The number in the next `count` bits, and the stream behind them. -/
def read (b : Backward) (src : ByteArray) (count : Nat) : Nat × Backward :=
  (b.peek src count, b.skip count)

end Backward

end Depot.Codec.Zstd
