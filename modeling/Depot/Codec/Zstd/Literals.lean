import Depot.Codec.Zstd.PrefixCode

/-!
This module contains the first section of a compressed block: the literals, which stand there as
they are, as one byte to repeat, or in a prefix code.
-/

namespace Depot.Codec.Zstd

structure Literals where
  bytes : ByteArray
  code : Option PrefixCode
  next : Nat

def maxBlock : Nat := 128 * 1024

namespace Literals

def plainHeader (src : ByteArray) (low : Nat) : Nat × Nat :=
  match byteAt src low / 4 % 4 with
  | 1 => (2, numberAt src low 2 / 16)
  | 3 => (3, numberAt src low 3 / 16)
  | _ => (1, byteAt src low / 8)

def readRaw (src : ByteArray) (low high limit : Nat) (code : Option PrefixCode) :
    Except ZstdFault Literals :=
  let (header, count) := plainHeader src low
  let next := low + header + count
  if limit < count || high < next then .error .corrupt
  else .ok ⟨src.extract (low + header) next, code, next⟩

def readRepeated (src : ByteArray) (low high limit : Nat) (code : Option PrefixCode) :
    Except ZstdFault Literals :=
  let (header, count) := plainHeader src low
  let next := low + header + 1
  if limit < count || high < next then .error .corrupt
  else .ok ⟨⟨Array.replicate count (byteAt src (low + header)).toUInt8⟩, code, next⟩

/-- The size of the header, the count of literals, the size of their streams, and if one is all. -/
def codedHeader (src : ByteArray) (low : Nat) : Nat × Nat × Nat × Bool :=
  match byteAt src low / 4 % 4 with
  | 2 =>
    let n := numberAt src low 4 / 16
    (4, n % (1 <<< 14), n >>> 14, false)
  | 3 =>
    let n := numberAt src low 5 / 16
    (5, n % (1 <<< 18), n >>> 18, false)
  | format =>
    let n := numberAt src low 3 / 16
    (3, n % (1 <<< 10), n >>> 10, format = 0)

/-- Coded literals; the code stands before them unless an earlier one is in force. -/
def readCoded (src : ByteArray) (low high limit : Nat) (inForce : Option PrefixCode) :
    Except ZstdFault Literals := do
  if high < low + 5 then throw .corrupt
  let (header, count, size, single) := codedHeader src low
  if limit < count then throw .corrupt
  if !single && count < 6 then throw .literalsHeader
  let start := low + header
  let next := start + size
  if high < next then throw .corrupt
  let (code, start) ←
    match inForce with
    | some code => pure (code, start)
    | none =>
      match PrefixCode.read? src start next with
      | some read => pure read
      | none => throw .corrupt
  let bytes? :=
    if single then code.stream? src start next count .empty
    else code.fourStreams? src start next count
  match bytes? with
  | some bytes => return ⟨bytes, some code, next⟩
  | none => throw .corrupt

/-- Reads the literals of the block between `low` and `high`. -/
def read (src : ByteArray) (low high limit : Nat) (code : Option PrefixCode) :
    Except ZstdFault Literals :=
  if high < low + 2 then .error .corrupt
  else
    match byteAt src low % 4 with
    | 0 => readRaw src low high limit code
    | 1 => readRepeated src low high limit code
    | 2 => readCoded src low high limit none
    | _ =>
      match code with
      | some _ => readCoded src low high limit code
      | none => .error .missingTable

end Literals

end Depot.Codec.Zstd
