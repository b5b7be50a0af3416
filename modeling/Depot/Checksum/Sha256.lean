import Depot.Text.Hex

/-!
This module contains the hash SHA-256.
-/

namespace Depot.Checksum.Sha256

structure State where
  a : UInt32
  b : UInt32
  c : UInt32
  d : UInt32
  e : UInt32
  f : UInt32
  g : UInt32
  h : UInt32

def State.initial : State :=
  ⟨0x6a09e667, 0xbb67ae85, 0x3c6ef372, 0xa54ff53a, 0x510e527f, 0x9b05688c, 0x1f83d9ab, 0x5be0cd19⟩

def constants : Array UInt32 := #[
  0x428a2f98, 0x71374491, 0xb5c0fbcf, 0xe9b5dba5, 0x3956c25b, 0x59f111f1, 0x923f82a4, 0xab1c5ed5,
  0xd807aa98, 0x12835b01, 0x243185be, 0x550c7dc3, 0x72be5d74, 0x80deb1fe, 0x9bdc06a7, 0xc19bf174,
  0xe49b69c1, 0xefbe4786, 0x0fc19dc6, 0x240ca1cc, 0x2de92c6f, 0x4a7484aa, 0x5cb0a9dc, 0x76f988da,
  0x983e5152, 0xa831c66d, 0xb00327c8, 0xbf597fc7, 0xc6e00bf3, 0xd5a79147, 0x06ca6351, 0x14292967,
  0x27b70a85, 0x2e1b2138, 0x4d2c6dfc, 0x53380d13, 0x650a7354, 0x766a0abb, 0x81c2c92e, 0x92722c85,
  0xa2bfe8a1, 0xa81a664b, 0xc24b8b70, 0xc76c51a3, 0xd192e819, 0xd6990624, 0xf40e3585, 0x106aa070,
  0x19a4c116, 0x1e376c08, 0x2748774c, 0x34b0bcb5, 0x391c0cb3, 0x4ed8aa4a, 0x5b9cca4f, 0x682e6ff3,
  0x748f82ee, 0x78a5636f, 0x84c87814, 0x8cc70208, 0x90befffa, 0xa4506ceb, 0xbef9a3f7, 0xc67178f2]

/-- The word with its bits moved right by `n` places, those that fall out coming in on the left. -/
@[inline]
def rotateRight (x n : UInt32) : UInt32 :=
  (x >>> n) ||| (x <<< (32 - n))

/-- The big-endian word at a position. -/
@[inline]
def wordAt (bytes : ByteArray) (pos : Nat) : UInt32 :=
  ((bytes.get! pos).toUInt32 <<< 24) ||| ((bytes.get! (pos + 1)).toUInt32 <<< 16)
    ||| ((bytes.get! (pos + 2)).toUInt32 <<< 8) ||| (bytes.get! (pos + 3)).toUInt32

@[inline]
def nextWord (words : Array UInt32) : UInt32 :=
  let i := words.size
  let w15 := words[i - 15]!
  let w2 := words[i - 2]!
  let s0 := rotateRight w15 7 ^^^ rotateRight w15 18 ^^^ (w15 >>> 3)
  let s1 := rotateRight w2 17 ^^^ rotateRight w2 19 ^^^ (w2 >>> 10)
  words[i - 16]! + s0 + words[i - 7]! + s1

/-- The schedule of the block at a position: its sixteen words and forty-eight more. -/
def schedule (bytes : ByteArray) (pos : Nat) : Array UInt32 :=
  let input := Nat.fold 16 (fun i _ words => words.push (wordAt bytes (pos + 4 * i)))
    (Array.mkEmpty 64)
  Nat.fold 48 (fun _ _ words => words.push (nextWord words)) input

def rounds (words : Array UInt32) : (left : Nat) → (a b c d e f g h : UInt32) → State
  | 0, a, b, c, d, e, f, g, h => ⟨a, b, c, d, e, f, g, h⟩
  | left + 1, a, b, c, d, e, f, g, h =>
    let i := 63 - left
    let s1 := rotateRight e 6 ^^^ rotateRight e 11 ^^^ rotateRight e 25
    let choice := (e &&& f) ^^^ ((~~~ e) &&& g)
    let t1 := h + s1 + choice + constants[i]! + words[i]!
    let s0 := rotateRight a 2 ^^^ rotateRight a 13 ^^^ rotateRight a 22
    let majority := (a &&& b) ^^^ (a &&& c) ^^^ (b &&& c)
    rounds words left (t1 + (s0 + majority)) a b c (d + t1) e f g

def compress (bytes : ByteArray) (pos : Nat) (s : State) : State :=
  let t := rounds (schedule bytes pos) 64 s.a s.b s.c s.d s.e s.f s.g s.h
  ⟨s.a + t.a, s.b + t.b, s.c + t.c, s.d + t.d, s.e + t.e, s.f + t.f, s.g + t.g, s.h + t.h⟩

def paddedTail (bytes : ByteArray) : ByteArray :=
  let full := bytes.size / 64 * 64
  let tail := (bytes.extract full bytes.size).push 0x80
  let zeros := (64 + 56 - tail.size % 64) % 64
  let bits := bytes.size * 8
  let padded := Nat.fold zeros (fun _ _ acc => acc.push 0) tail
  Nat.fold 8 (fun i _ acc => acc.push (bits >>> (8 * (7 - i))).toUInt8) padded

def compressMany (bytes : ByteArray) : (count pos : Nat) → State → State
  | 0, _, s => s
  | count + 1, pos, s => compressMany bytes count (pos + 64) (compress bytes pos s)

def digest (bytes : ByteArray) : String :=
  let tail := paddedTail bytes
  let s := compressMany tail (tail.size / 64) 0
    (compressMany bytes (bytes.size / 64) 0 State.initial)
  String.ofList ([s.a, s.b, s.c, s.d, s.e, s.f, s.g, s.h].flatMap fun w =>
    Text.hexPadded 8 w.toNat)

end Depot.Checksum.Sha256

namespace Depot.Checksum

def sha256OfText (s : String) : String :=
  Sha256.digest s.toUTF8

end Depot.Checksum
