import Depot.Codec.Bits
import Depot.Codec.Error

/-!
This module contains the decoder of deflated data. It delivers what can be decoded, and says
whether it stopped at the end of the data, for lack of input, or because the input is invalid.
-/

namespace Depot.Codec.Inflate

inductive Stop where
  | finished (pos : Nat)
  | starved
  | invalid (fault : InflateFault)
deriving DecidableEq, Repr

structure Progress where
  out : ByteArray
  buffer : Nat := 0
  mark : Nat := 0

structure Inflated where
  progress : Progress
  stop : Stop

def bufferSize : Nat := 8192

@[inline]
def Progress.reach (p : Progress) (base pos : Nat) : Progress :=
  let buffer := (pos / 8 - base) / bufferSize
  if buffer = p.buffer then p else { p with buffer, mark := p.out.size }

/-- A canonical prefix code: how many codes have each length, and the symbols in code order. -/
structure Code where
  counts : Array Nat
  symbols : Array Nat
  maxLength : Nat

/-- The code with the given length for each symbol; length zero means the symbol has none. -/
def Code.ofLengths (lengths : Array Nat) : Code :=
  let counts := lengths.foldl (fun counts l => counts.modify l (· + 1)) (Array.replicate 16 0)
  let symbols := (List.range 15).flatMap fun l =>
    (List.range lengths.size).filter fun s => lengths[s]! = l + 1
  { counts := counts.set! 0 0
    symbols := symbols.toArray
    maxLength := lengths.foldl max 0 }

/-- How many codes of the longest length are missing; none if there are too many codes. -/
def Code.missing? (code : Code) : Option Nat :=
  (List.range 15).foldlM (fun left l => do
    let count := code.counts[l + 1]!
    if 2 * left < count then none else some (2 * left - count)) 1

/-- A code is sound if it is complete; one that has a single code of one bit may lack the other. -/
def Code.isSound (code : Code) (mayLack : Bool) : Bool :=
  code.maxLength = 0 ||
    match code.missing? with
    | none => false
    | some 0 => true
    | some _ => mayLack && code.maxLength = 1

/-- The result of reading one code: the symbol and the position behind it. -/
inductive Decoded where
  | symbol (s pos : Nat)
  | unused
  | starved

def Code.decode (code : Code) (src : ByteArray) (pos : Nat) : Decoded :=
  go (max 1 code.maxLength) 1 pos 0 0 0
where
  /-- `bits` are those of the codes of this length read so far; `first` is the first such code. -/
  go : (left length pos bits first index : Nat) → Decoded
    | 0, _, _, _, _, _ => .unused
    | left + 1, length, pos, bits, first, index =>
      if src.size * 8 ≤ pos then .starved
      else
        let bits := 2 * bits + bitAt src pos
        let first := 2 * first
        let count := code.counts[length]!
        if bits < first + count then .symbol (code.symbols[index + (bits - first)]!) (pos + 1)
        else go left (length + 1) (pos + 1) bits (first + count) (index + count)

def lengthCodes : Array (Nat × Nat) := #[
  (3, 0), (4, 0), (5, 0), (6, 0), (7, 0), (8, 0), (9, 0), (10, 0), (11, 1), (13, 1), (15, 1),
  (17, 1), (19, 2), (23, 2), (27, 2), (31, 2), (35, 3), (43, 3), (51, 3), (59, 3), (67, 4),
  (83, 4), (99, 4), (115, 4), (131, 5), (163, 5), (195, 5), (227, 5), (258, 0)]

def distanceCodes : Array (Nat × Nat) := #[
  (1, 0), (2, 0), (3, 0), (4, 0), (5, 1), (7, 1), (9, 2), (13, 2), (17, 3), (25, 3), (33, 4),
  (49, 4), (65, 5), (97, 5), (129, 6), (193, 6), (257, 7), (385, 7), (513, 8), (769, 8),
  (1025, 9), (1537, 9), (2049, 10), (3073, 10), (4097, 11), (6145, 11), (8193, 12), (12289, 12),
  (16385, 13), (24577, 13)]

/-- Repeats `count` bytes from `distance` back. -/
def copyBack (distance : Nat) : (count : Nat) → ByteArray → ByteArray
  | 0, out => out
  | count + 1, out => copyBack distance count (out.push (out.get! (out.size - distance)))

/-- The result of one block: the position behind it, unless decoding stopped in it. -/
structure Block where
  progress : Progress
  next : Except Stop Nat

def readLength (src : ByteArray) (s pos : Nat) : Except Stop (Nat × Nat) :=
  match lengthCodes[s - 257]? with
  | none => .error (.invalid .literalCode)
  | some (least, extra) =>
    match readBits? src pos extra with
    | none => .error .starved
    | some more => .ok (least + more, pos + extra)

def readDistance (distances : Code) (src : ByteArray) (pos : Nat) : Except Stop (Nat × Nat) :=
  match distances.decode src pos with
  | .unused => .error (.invalid .distanceCode)
  | .starved => .error .starved
  | .symbol s pos =>
    match distanceCodes[s]? with
    | none => .error (.invalid .distanceCode)
    | some (least, extra) =>
      match readBits? src pos extra with
      | none => .error .starved
      | some more => .ok (least + more, pos + extra)

def symbols (literals distances : Code) (src : ByteArray) (base : Nat) :
    (fuel pos : Nat) → Progress → Block
  | 0, _, p => ⟨p, .error .starved⟩
  | fuel + 1, pos, p =>
    match literals.decode src pos with
    | .unused => ⟨p, .error (.invalid .literalCode)⟩
    | .starved => ⟨p, .error .starved⟩
    | .symbol s pos =>
      let p := p.reach base pos
      if s < 256 then
        symbols literals distances src base fuel pos { p with out := p.out.push s.toUInt8 }
      else if s = 256 then ⟨p, .ok pos⟩
      else
        match readLength src s pos with
        | .error stop => ⟨p, .error stop⟩
        | .ok (length, pos) =>
          match readDistance distances src pos with
          | .error stop => ⟨p, .error stop⟩
          | .ok (distance, pos) =>
            if p.out.size < distance then ⟨p, .error (.invalid .distanceTooFar)⟩
            else
              symbols literals distances src base fuel pos
                { p with out := copyBack distance length p.out }

/-- The code for literals and lengths of blocks that bring none. -/
def fixedLiterals : Code :=
  .ofLengths (Array.replicate 144 8 ++ Array.replicate 112 9 ++ Array.replicate 24 7
    ++ Array.replicate 8 8)

/-- The code for distances of blocks that bring none. -/
def fixedDistances : Code :=
  .ofLengths (Array.replicate 32 5)

def lengthOrder : Array Nat :=
  #[16, 17, 18, 0, 8, 7, 9, 6, 10, 5, 11, 4, 12, 3, 13, 2, 14, 1, 15]

def readLengthLengths (src : ByteArray) : (count i pos : Nat) → Array Nat →
    Except Stop (Array Nat × Nat)
  | 0, _, pos, lengths => .ok (lengths, pos)
  | count + 1, i, pos, lengths =>
    match readBits? src pos 3 with
    | none => .error .starved
    | some l => readLengthLengths src count (i + 1) (pos + 3) (lengths.set! (lengthOrder[i]!) l)

/-- A run of equal code lengths: the length, and how often it stands there. -/
def readRun (code : Code) (src : ByteArray) (pos : Nat) (previous : Option Nat) :
    Except Stop (Nat × Nat × Nat) :=
  let repeated (length least extra pos : Nat) : Except Stop (Nat × Nat × Nat) :=
    match readBits? src pos extra with
    | none => .error .starved
    | some more => .ok (length, least + more, pos + extra)
  let decoded :=
    if code.maxLength = 0 then
      if src.size * 8 ≤ pos then .starved else .symbol 0 (pos + 1)
    else code.decode src pos
  match decoded with
  | .unused => .error (.invalid .codeLengthsSet)
  | .starved => .error .starved
  | .symbol 16 pos =>
    match previous with
    | some length => repeated length 3 2 pos
    | none =>
      match readBits? src pos 2 with
      | none => .error .starved
      | some _ => .error (.invalid .lengthRepeat)
  | .symbol 17 pos => repeated 0 3 3 pos
  | .symbol 18 pos => repeated 0 11 7 pos
  | .symbol s pos => .ok (s, 1, pos)

/-- Code lengths until there are `total` of them. -/
def readLengths (code : Code) (src : ByteArray) (total : Nat) : (fuel pos : Nat) → Array Nat →
    Except Stop (Array Nat × Nat)
  | 0, _, _ => .error .starved
  | fuel + 1, pos, lengths =>
    if total ≤ lengths.size then .ok (lengths, pos)
    else
      match readRun code src pos lengths.back? with
      | .error stop => .error stop
      | .ok (length, count, pos) =>
        if total < lengths.size + count then .error (.invalid .lengthRepeat)
        else readLengths code src total fuel pos (lengths ++ Array.replicate count length)

def readCodes (src : ByteArray) (pos : Nat) : Except Stop (Code × Code × Nat) := do
  let some counts := readBits? src pos 14 | .error .starved
  let literalCount := counts % 32 + 257
  let distanceCount := counts / 32 % 32 + 1
  let lengthCount := counts / 1024 + 4
  if 286 < literalCount || 30 < distanceCount then throw (.invalid .symbolCounts)
  let (lengths, pos) ← readLengthLengths src lengthCount 0 (pos + 14) (Array.replicate 19 0)
  let code := Code.ofLengths lengths
  if !code.isSound false then throw (.invalid .codeLengthsSet)
  let total := literalCount + distanceCount
  let (lengths, pos) ← readLengths code src total (total + 1) pos #[]
  if lengths[256]! = 0 then throw (.invalid .noEndOfBlock)
  let literals := Code.ofLengths (lengths.extract 0 literalCount)
  if !literals.isSound true then throw (.invalid .literalSet)
  let distances := Code.ofLengths (lengths.extract literalCount total)
  if !distances.isSound true then throw (.invalid .distanceSet)
  return (literals, distances, pos)

/-- A stored block: two complementary lengths at the next byte boundary, and the bytes. -/
def stored (src : ByteArray) (base pos : Nat) (p : Progress) : Block :=
  let boundary := (pos + 7) / 8
  if src.size < boundary + 4 then ⟨p, .error .starved⟩
  else
    let length := numberAt src boundary 2
    if length + numberAt src (boundary + 2) 2 ≠ 0xffff then ⟨p, .error (.invalid .storedLengths)⟩
    else
      let start := boundary + 4
      let stop := min (start + length) src.size
      let out := p.out ++ src.extract start stop
      let buffer := (stop - base) / bufferSize
      let p : Progress :=
        if buffer = p.buffer then { p with out }
        else { out, buffer, mark := out.size - min (stop - start) ((stop - base) % bufferSize) }
      if start + length ≤ src.size then ⟨p, .ok (stop * 8)⟩ else ⟨p, .error .starved⟩

def blocks (src : ByteArray) (base : Nat) : (fuel pos : Nat) → Progress → Inflated
  | 0, _, p => ⟨p, .starved⟩
  | fuel + 1, pos, p =>
    match readBits? src pos 3 with
    | none => ⟨p, .starved⟩
    | some header =>
      let block : Block :=
        match header / 2 with
        | 0 => stored src base (pos + 3) p
        | 1 => symbols fixedLiterals fixedDistances src base (src.size * 8) (pos + 3) p
        | 2 =>
          match readCodes src (pos + 3) with
          | .error stop => ⟨p, .error stop⟩
          | .ok (literals, distances, pos) =>
            symbols literals distances src base (src.size * 8) pos p
        | _ => ⟨p, .error (.invalid .blockType)⟩
      match block.next with
      | .error stop => ⟨block.progress, stop⟩
      | .ok pos =>
        if header % 2 = 1 then ⟨block.progress, .finished pos⟩
        else blocks src base fuel pos block.progress

/-- The data deflated from the byte at `base` on. -/
def run (src : ByteArray) (base : Nat) : Inflated :=
  blocks src base (src.size + 1) (base * 8) ⟨.empty, 0, 0⟩

end Depot.Codec.Inflate
