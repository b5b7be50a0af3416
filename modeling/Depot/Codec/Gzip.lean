import Depot.Checksum.Crc32
import Depot.Codec.Inflate
import Depot.Codec.Tape

/-!
This module contains the decoder of gzip bodies. A body is a sequence of members, each a header,
deflated data and a trailer that holds the check value and the length of the data. Zero bytes may
stand between members.
-/

namespace Depot.Codec.Gzip

inductive Header where
  | absent
  /-- There is no sound header; what follows the bytes looked at begins at `next`. -/
  | faulty (error : Fault) (next : Nat)
  /-- The deflated data begins at `start`. -/
  | sound (start : Nat)

def skipText (src : ByteArray) : (left pos : Nat) → Nat
  | 0, pos => pos
  | left + 1, pos => if byteAt src pos = 0 then pos + 1 else skipText src left (pos + 1)

def announces (flags bit : Nat) : Bool :=
  flags / bit % 2 = 1

/-- Skips the optional fields: extra data, a name, a comment, a check value of the header. -/
def skipFields (src : ByteArray) (flags pos : Nat) : Header :=
  let extraFits := pos + 2 ≤ src.size
  let extraEnd := pos + 2 + numberAt src pos 2
  if announces flags 4 && !(extraFits && extraEnd ≤ src.size) then .faulty .truncated src.size
  else
    let pos := if announces flags 4 then extraEnd else pos
    let pos := if announces flags 8 then skipText src (src.size - pos) pos else pos
    let pos := if announces flags 16 then skipText src (src.size - pos) pos else pos
    if announces flags 2 then
      if pos + 2 ≤ src.size then .sound (pos + 2) else .faulty .truncated src.size
    else .sound pos

def readHeader (src : ByteArray) (pos : Nat) : Header :=
  let magic := src.extract pos (pos + 2)
  if magic.size = 0 then .absent
  else if magic.toList ≠ [0x1f, 0x8b] then .faulty (.notGzip magic.toList) (pos + magic.size)
  else if src.size < pos + 10 then .faulty .truncated src.size
  else if byteAt src (pos + 2) ≠ 8 then .faulty .unknownMethod (pos + 10)
  else skipFields src (byteAt src (pos + 3)) (pos + 10)

/-- What is wrong with the trailer at a position, if anything. -/
def trailerFault? (src : ByteArray) (pos : Nat) (data : ByteArray) : Option Fault :=
  let stored := (numberAt src pos 4).toUInt32
  let computed := Checksum.Crc32.compute data
  if stored ≠ computed then some (.crcMismatch stored computed)
  else if (numberAt src (pos + 4) 4).toUInt32 ≠ data.size.toUInt32 then some .lengthMismatch
  else none

def skipZeros (src : ByteArray) : (left pos : Nat) → Nat
  | 0, pos => pos
  | left + 1, pos => if byteAt src pos = 0 then skipZeros src left (pos + 1) else pos

/-- What is expected at a position: a header, or the trailer of some data. -/
inductive Phase where
  | header
  | trailer (data : ByteArray)

/-- The body from a position on. A faulty header or trailer is skipped by the next read. -/
def decodeFrom (src : ByteArray) : (fuel pos : Nat) → Phase → Tape
  | 0, _, _ => .blank
  | fuel + 1, pos, .header =>
    match readHeader src pos with
    | .absent => .blank
    | .faulty error next => (decodeFrom src fuel next .header).push .empty (some error)
    | .sound start =>
      let { progress, stop } := Inflate.run src start
      match stop with
      | .finished pos =>
        (decodeFrom src fuel ((pos + 7) / 8) (.trailer progress.out)).push progress.out none
      | .starved => (Tape.failing .truncated).push progress.out none
      | .invalid fault =>
        let before := progress.out.extract 0 progress.mark
        let lost := progress.out.extract progress.mark progress.out.size
        ((Tape.failing (.inflate fault)).push lost (some (.inflate fault))).push before none
  | fuel + 1, pos, .trailer data =>
    if src.size < pos + 8 then .failing .truncated
    else
      match trailerFault? src pos data with
      | some error => (decodeFrom src fuel (pos + 8) (.trailer data)).push .empty (some error)
      | none => decodeFrom src fuel (skipZeros src (src.size - (pos + 8)) (pos + 8)) .header

def decode (src : ByteArray) : Tape :=
  decodeFrom src (src.size + 1) 0 .header

end Depot.Codec.Gzip
