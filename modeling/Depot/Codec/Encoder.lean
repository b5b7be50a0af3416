import Depot.Checksum.Crc32
import Depot.Codec.Bits
import Depot.Codec.Scheme

/-!
This module contains the encoders of bodies. An encoder turns each chunk it is fed into pieces for
the sink. The gzip and Zstandard encoders frame the data without making it smaller, as both formats
allow.
-/

namespace Depot.Codec

inductive Encoder where
  | none
  | gzip (register : UInt32) (size : Nat)
  | zstd (pending : ByteArray) (started : Bool)

namespace Encoder

def byte (n : Nat) : ByteArray :=
  ⟨#[n.toUInt8]⟩

/-- The pieces of a gzip header: no name, no time, best compression, unknown system. -/
def gzipHeader : List ByteArray :=
  [byte 0x1f ++ byte 0x8b, byte 8, byte 0, numberBytes 4 0, byte 2, byte 0xff]

def maxStored : Nat := 0xffff

def storedBlock (final : Bool) (bytes : ByteArray) : ByteArray :=
  byte (if final then 1 else 0) ++ numberBytes 2 bytes.size
    ++ numberBytes 2 (maxStored - bytes.size) ++ bytes

/-- Stored blocks for the bytes from a position on, none of them the last. -/
def storedBlocks (bytes : ByteArray) : (count pos : Nat) → ByteArray
  | 0, _ => .empty
  | count + 1, pos =>
    storedBlock false (bytes.extract pos (pos + maxStored))
      ++ storedBlocks bytes count (pos + maxStored)

/-- The header of a Zstandard frame: a window of one block, no size, no checksum. -/
def zstdHeader : ByteArray :=
  numberBytes 4 0xfd2fb528 ++ byte 0 ++ byte 0x38

def maxRaw : Nat := 128 * 1024

def rawBlock (last : Bool) (bytes : ByteArray) : ByteArray :=
  numberBytes 3 (bytes.size * 8 + (if last then 1 else 0)) ++ bytes

/-- Full raw blocks for the bytes from a position on, none of them the last. -/
def rawBlocks (bytes : ByteArray) : (count pos : Nat) → ByteArray
  | 0, _ => .empty
  | count + 1, pos =>
    rawBlock false (bytes.extract pos (pos + maxRaw)) ++ rawBlocks bytes count (pos + maxRaw)

def beforeBlock (started : Bool) : ByteArray :=
  if started then .empty else zstdHeader

def start : Scheme → Encoder × List ByteArray
  | .none => (.none, [])
  | .gzip => (.gzip 0xffffffff 0, gzipHeader)
  | .zstd => (.zstd .empty false, [])

def feed (encoder : Encoder) (chunk : ByteArray) : Encoder × List ByteArray :=
  match encoder with
  | .none => (.none, [chunk])
  | .gzip register size =>
    (.gzip (Checksum.Crc32.run chunk chunk.size 0 register) (size + chunk.size),
      [storedBlocks chunk ((chunk.size + (maxStored - 1)) / maxStored) 0])
  | .zstd pending started =>
    let all := pending ++ chunk
    let count := all.size / maxRaw
    if count = 0 then (.zstd all started, [])
    else
      (.zstd (all.extract (count * maxRaw) all.size) true,
        [beforeBlock started ++ rawBlocks all count 0])

def finish : Encoder → List ByteArray
  | .none => []
  | .gzip register size =>
    [storedBlock true .empty, numberBytes 4 (~~~ register).toNat, numberBytes 4 size]
  | .zstd pending started => [beforeBlock started ++ rawBlock true pending]

end Encoder

end Depot.Codec
