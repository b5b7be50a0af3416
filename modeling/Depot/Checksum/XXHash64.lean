/-!
This module contains the hash XXH64 with seed zero, whose low half closes a Zstandard frame.
-/

namespace Depot.Checksum.XXHash64

def p1 : UInt64 := 0x9e3779b185ebca87
def p2 : UInt64 := 0xc2b2ae3d27d4eb4f
def p3 : UInt64 := 0x165667b19e3779f9
def p4 : UInt64 := 0x85ebca77c2b2ae63
def p5 : UInt64 := 0x27d4eb2f165667c5

/-- The word with its bits moved left by `n` places, those that fall out coming in on the right. -/
@[inline]
def rotateLeft (x n : UInt64) : UInt64 :=
  (x <<< n) ||| (x >>> (64 - n))

/-- The little-endian number in the `count` bytes at a position. -/
def littleEndian (bytes : ByteArray) (pos : Nat) : (count : Nat) → UInt64
  | 0 => 0
  | count + 1 =>
    (bytes.get! pos).toUInt64 ||| (littleEndian bytes (pos + 1) count <<< 8)

def round (acc input : UInt64) : UInt64 :=
  rotateLeft (acc + input * p2) 31 * p1

def merge (hash acc : UInt64) : UInt64 :=
  (hash ^^^ round 0 acc) * p1 + p4

def stripes (bytes : ByteArray) : (count pos : Nat) → (v1 v2 v3 v4 : UInt64) →
    UInt64 × UInt64 × UInt64 × UInt64
  | 0, _, v1, v2, v3, v4 => (v1, v2, v3, v4)
  | count + 1, pos, v1, v2, v3, v4 =>
    stripes bytes count (pos + 32)
      (round v1 (littleEndian bytes pos 8)) (round v2 (littleEndian bytes (pos + 8) 8))
      (round v3 (littleEndian bytes (pos + 16) 8)) (round v4 (littleEndian bytes (pos + 24) 8))

def words (bytes : ByteArray) : (count pos : Nat) → UInt64 → UInt64
  | 0, _, hash => hash
  | count + 1, pos, hash =>
    let hash := hash ^^^ round 0 (littleEndian bytes pos 8)
    words bytes count (pos + 8) (rotateLeft hash 27 * p1 + p4)

def singles (bytes : ByteArray) : (count pos : Nat) → UInt64 → UInt64
  | 0, _, hash => hash
  | count + 1, pos, hash =>
    let hash := hash ^^^ ((bytes.get! pos).toUInt64 * p5)
    singles bytes count (pos + 1) (rotateLeft hash 11 * p1)

def body (bytes : ByteArray) : UInt64 :=
  if bytes.size < 32 then p5
  else
    let (v1, v2, v3, v4) := stripes bytes (bytes.size / 32) 0 (p1 + p2) p2 0 (0 - p1)
    let hash := rotateLeft v1 1 + rotateLeft v2 7 + rotateLeft v3 12 + rotateLeft v4 18
    merge (merge (merge (merge hash v1) v2) v3) v4

def compute (bytes : ByteArray) : UInt64 :=
  let hash := body bytes + bytes.size.toUInt64
  let pos := bytes.size / 32 * 32
  let left := bytes.size % 32
  let hash := words bytes (left / 8) pos hash
  let pos := pos + left / 8 * 8
  let left := left % 8
  let hash :=
    if left < 4 then hash
    else rotateLeft (hash ^^^ (littleEndian bytes pos 4 * p1)) 23 * p2 + p3
  let hash := singles bytes (left % 4) (pos + left / 4 * 4) hash
  let hash := (hash ^^^ (hash >>> 33)) * p2
  let hash := (hash ^^^ (hash >>> 29)) * p3
  hash ^^^ (hash >>> 32)

end Depot.Checksum.XXHash64
