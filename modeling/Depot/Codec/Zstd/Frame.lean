import Depot.Checksum.XXHash64
import Depot.Codec.Tape
import Depot.Codec.Zstd.Sequences

/-!
This module contains the decoder of Zstandard bodies. Reading stops after the first frame that
holds data; skippable frames hold none. A body that ends inside a frame is read as far as it goes.
-/

namespace Depot.Codec.Zstd

def magic : Nat := 0xfd2fb528

def skippableMagic : Nat := 0x184d2a5

def maxWindow : Nat := 128 * 1024 * 1024 + 1

structure FrameHeader where
  window : Nat
  contentSize : Option Nat
  dictionary : Nat
  hasChecksum : Bool
  next : Nat

namespace FrameHeader

def fieldSizes (descriptor : Nat) : Nat × Nat × Nat :=
  let single := descriptor / 32 % 2 = 1
  let content :=
    match descriptor / 64 with
    | 0 => if single then 1 else 0
    | 1 => 2
    | 2 => 4
    | _ => 8
  let dictionary :=
    match descriptor % 4 with
    | 3 => 4
    | n => n
  (if single then 0 else 1, dictionary, content)

/-- The size of the window that a byte describes: a power of two and some eighths of it. -/
def windowOf (byte : Nat) : Nat :=
  let base := 1 <<< (byte / 8 + 10)
  base + base / 8 * (byte % 8)

/-- Reads the header of the frame at a position; none if the input ends inside the header. -/
def read (src : ByteArray) (pos : Nat) : Except ZstdFault (Option FrameHeader) :=
  let descriptor := byteAt src (pos + 4)
  let (windowSize, dictionarySize, contentFieldSize) := fieldSizes descriptor
  let dictionaryAt := pos + 5 + windowSize
  let contentAt := dictionaryAt + dictionarySize
  let next := contentAt + contentFieldSize
  if src.size < next then .ok none
  else if descriptor / 8 % 2 = 1 then .error .unsupportedFrame
  else if windowSize = 1 ∧ 31 < byteAt src (pos + 5) / 8 + 10 then .error .windowTooLarge
  else
    let content := numberAt src contentAt contentFieldSize
    -- Two bytes leave out the sizes that fit one.
    let content := if contentFieldSize = 2 then content + 256 else content
    let dictionary := numberAt src dictionaryAt dictionarySize
    let window := if windowSize = 1 then windowOf (byteAt src (pos + 5)) else content
    if dictionary ≠ 0 then .error .dictionary
    else if maxWindow < window then .error .windowTooLarge
    else
      .ok (some {
        window, dictionary, next
        contentSize := if contentFieldSize = 0 then none else some content
        hasChecksum := descriptor / 4 % 2 = 1 })

end FrameHeader

inductive FrameEnd where
  /-- The frame is complete, and ends before `next`. -/
  | complete (next : Nat)
  /-- The input ends inside the frame. Its last bytes were used up for the data from `brink` on. -/
  | cut (brink : Nat)
  | faulty (fault : ZstdFault)

/-- The brink of the data if the input ends at or behind a position; a block put it there. -/
def brinkAt (src : ByteArray) (pos brink : Nat) (data : ByteArray) : Nat :=
  if src.size ≤ pos then brink else data.size

/-- What follows the last block, which holds the data from `brink` on. -/
def closeFrame (src : ByteArray) (header : FrameHeader) (pos brink : Nat) (data : ByteArray) :
    FrameEnd :=
  if !header.hasChecksum then .complete pos
  else if src.size < pos + 4 then .cut (brinkAt src pos brink data)
  else if (numberAt src pos 4).toUInt32 ≠ (Checksum.XXHash64.compute data).toUInt32 then
    .faulty .checksum
  else .complete (pos + 4)

/--
The blocks from a position on, and what they add to the data. The block before them holds the data
from `brink` on. The content must be as the header says before the last block is delivered.
-/
def readBlocks (src : ByteArray) (header : FrameHeader) : (fuel pos brink : Nat) → Memory →
    ByteArray → ByteArray × FrameEnd
  | 0, _, _, _, data => (data, .cut data.size)
  | fuel + 1, pos, brink, memory, data =>
    if src.size < pos + 3 then (data, .cut (brinkAt src pos brink data))
    else
      let block := numberAt src pos 3
      let size := block / 8
      let start := pos + 3
      let limit := min header.window maxBlock
      let proceed (next : Nat) (memory : Memory) (longer : ByteArray) : ByteArray × FrameEnd :=
        if block % 2 = 0 then readBlocks src header fuel next data.size memory longer
        else if header.contentSize.any (· ≠ longer.size) then (data, .faulty .corrupt)
        else (longer, closeFrame src header next data.size longer)
      if limit < size then (data, .faulty .corrupt)
      else
        match block / 2 % 4 with
        | 0 =>
          let longer := data ++ src.extract start (start + size)
          if src.size < start + size then (longer, .cut data.size)
          else proceed (start + size) memory longer
        | 1 =>
          if src.size < start + 1 then (data, .cut data.size)
          else
            let repeated := ⟨Array.replicate size (byteAt src start).toUInt8⟩
            proceed (start + 1) memory (data ++ repeated)
        | 2 =>
          if src.size < start + size then (data, .cut data.size)
          else if size = 0 && header.contentSize.isNone then proceed start memory data
          else
            match readBlock src start (start + size) limit memory data with
            | .error fault => (data, .faulty fault)
            | .ok (longer, memory) => proceed (start + size) memory longer
        | _ => (data, .faulty .corrupt)

def mayStart (src : ByteArray) (pos : Nat) : Bool :=
  let count := min 4 (src.size - pos)
  let start := numberAt src pos count
  let limit := 1 <<< (8 * count)
  start = magic % limit || start / 16 = skippableMagic * 16 % limit / 16

def decodeFrom (src : ByteArray) : (fuel pos : Nat) → Tape
  | 0, _ => .blank
  | fuel + 1, pos =>
    if src.size ≤ pos then .blank
    else if src.size < pos + 5 then
      if mayStart src pos then .blank else Tape.blank.push .empty (some (.zstd .unknownFrame))
    else if numberAt src pos 4 / 16 = skippableMagic then
      let next := pos + 8 + numberAt src (pos + 4) 4
      if src.size < pos + 8 || src.size < next then .blank else decodeFrom src fuel next
    else if numberAt src pos 4 ≠ magic then .failing (.zstd .unknownFrame)
    else
      match FrameHeader.read src pos with
      | .error fault => .failing (.zstd fault)
      | .ok none => .blank
      | .ok (some header) =>
        match readBlocks src header (src.size + 1) header.next 0 {} .empty with
        | (data, .faulty fault) => (Tape.failing (.zstd fault)).push data (some (.zstd fault))
        | (data, .cut brink) => Tape.blank.pushLoose data brink
        | (data, .complete next) =>
          if data.size = 0 then decodeFrom src fuel next else Tape.blank.push data none

def decode (src : ByteArray) : Tape :=
  decodeFrom src (src.size + 1) 0

end Depot.Codec.Zstd
