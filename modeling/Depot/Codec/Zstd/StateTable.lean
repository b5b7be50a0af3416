import Depot.Codec.Error
import Depot.Codec.Zstd.Backward

/-!
This module contains the tables of finite state entropy codes. Each state stands for a symbol; the
next state is a base that the state gives, and a number read from the stream.
-/

namespace Depot.Codec.Zstd

structure Cell where
  symbol : Nat := 0
  bits : Nat := 0
  base : Nat := 0
deriving Inhabited

/-- A table of `2 ^ log` states. -/
structure StateTable where
  log : Nat
  cells : Array Cell
deriving Inhabited

namespace StateTable

def single (symbol : Nat) : StateTable :=
  ⟨0, #[{ symbol }]⟩

def rareSymbols (counts : Array Int) : List Nat :=
  (List.range counts.size).filter fun s => counts[s]! = -1

/-- The next state after `pos` that a symbol may take; the last ones, above `high`, are taken. -/
def nextFree (size high : Nat) : (fuel pos : Nat) → Nat
  | 0, pos => pos
  | fuel + 1, pos =>
    let pos := (pos + size / 2 + size / 8 + 3) % size
    if high < pos then nextFree size high fuel pos else pos

def spreadSymbol (size high symbol : Nat) : (count : Nat) → Nat × Array Nat → Nat × Array Nat
  | 0, acc => acc
  | count + 1, (pos, symbols) =>
    spreadSymbol size high symbol count
      (nextFree size high size pos, symbols.set! pos symbol)

def spread (log : Nat) (counts : Array Int) : Array Nat :=
  let size := 1 <<< log
  let rare := rareSymbols counts
  let placed := rare.zipIdx.foldl (fun acc (s, i) => acc.set! (size - 1 - i) s)
    (Array.replicate size 0)
  let high := size - 1 - rare.length
  let (_, symbols) := (List.range counts.size).foldl
    (fun acc s => spreadSymbol size high s (counts[s]!).toNat acc) (0, placed)
  symbols

/-- The table for the given counts, whose absolute values add up to `2 ^ log`. -/
def ofCounts (log : Nat) (counts : Array Int) : StateTable :=
  let symbols := spread log counts
  let (cells, _) := symbols.foldl
    (fun (cells, nexts) s =>
      let next := nexts[s]!
      let bits := log - next.log2
      (cells.push ⟨s, bits, (next <<< bits) - (1 <<< log)⟩, nexts.set! s (next + 1)))
    (Array.mkEmpty symbols.size, counts.map Int.natAbs)
  ⟨log, cells⟩

/-- A count, written in one bit less if it is small, and how many bits it takes. -/
def readCount (src : ByteArray) (pos remaining : Nat) : Nat × Nat :=
  let bits := (remaining + 1).log2 + 1
  let value := bitsAt src pos bits
  let half := 1 <<< (bits - 1)
  let low := value % half
  let threshold := 2 * half - 1 - (remaining + 1)
  if low < threshold then (low, bits - 1)
  else if half ≤ value then (value - threshold, bits)
  else (value, bits)

/-- The zeros that follow a count of zero: two bits tell how many, and three that more follow. -/
def readZeros (src : ByteArray) : (fuel pos : Nat) → Array Int → Nat × Array Int
  | 0, pos, counts => (pos, counts)
  | fuel + 1, pos, counts =>
    let n := bitsAt src pos 2
    let counts := counts ++ Array.replicate n 0
    if n = 3 then readZeros src fuel (pos + 2) counts else (pos + 2, counts)

def readCountsFrom (src : ByteArray) (most : Nat) : (fuel pos remaining : Nat) → Array Int →
    Option (Nat × Array Int)
  | 0, _, _, _ => none
  | fuel + 1, pos, remaining, counts =>
    if remaining = 0 then some (pos, counts)
    else if most < counts.size then none
    else
      let (value, bits) := readCount src pos remaining
      let count := Int.ofNat value - 1
      if remaining < count.natAbs then none
      else
        let remaining := remaining - count.natAbs
        let counts := counts.push count
        if count = 0 then
          let (pos, counts) := readZeros src most (pos + bits) counts
          readCountsFrom src most fuel pos remaining counts
        else readCountsFrom src most fuel (pos + bits) remaining counts

/--
Reads a table from the bytes between `low` and `high`, and tells where it ends. Symbols go up to
`most`, and the table has at most `2 ^ maxLog` states.
-/
def read? (src : ByteArray) (low high most maxLog : Nat) : Option (StateTable × Nat) := do
  guard (low < high)
  let log := bitsAt src (low * 8) 4 + 5
  guard (log ≤ maxLog)
  let (pos, counts) ← readCountsFrom src most (most + 2) (low * 8 + 4) (1 <<< log) #[]
  guard (counts.size ≤ most + 1)
  let next := (pos + 7) / 8
  guard (next ≤ high)
  return (ofCounts log counts, next)

def symbol (table : StateTable) (state : Nat) : Nat :=
  (table.cells[state]!).symbol

def step (table : StateTable) (src : ByteArray) (state : Nat) (b : Backward) : Nat × Backward :=
  let cell := table.cells[state]!
  let (more, b) := b.read src cell.bits
  (cell.base + more, b)

end StateTable

end Depot.Codec.Zstd
