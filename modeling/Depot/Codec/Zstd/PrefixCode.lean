import Depot.Codec.Zstd.StateTable

/-!
This module contains the prefix codes of literals. A code is given by weights: a symbol of weight
`w` takes `2 ^ (w - 1)` cells of the table, and the last symbol takes what the others leave.
-/

namespace Depot.Codec.Zstd

/-- A prefix code as a table indexed by the next `width` bits: the symbol and its length. -/
structure PrefixCode where
  width : Nat
  cells : Array (Nat × Nat)
deriving Inhabited

namespace PrefixCode

def cellsOfWeight (weights : Array Nat) (width w : Nat) : List (Nat × Nat) :=
  ((List.range weights.size).filter fun s => weights[s]! = w).flatMap fun s =>
    List.replicate (1 <<< (w - 1)) (s, width + 1 - w)

def ofWeights? (weights : Array Nat) : Option PrefixCode := do
  guard (weights.all (· ≤ 12))
  let total := weights.foldl (fun sum w => if w = 0 then sum else sum + (1 <<< (w - 1))) 0
  guard (0 < total)
  let width := total.log2 + 1
  guard (width ≤ 12)
  let rest := (1 <<< width) - total
  guard (rest = 1 <<< rest.log2)
  let weights := weights.push (rest.log2 + 1)
  let lowest := weights.foldl (fun n w => if w = 1 then n + 1 else n) 0
  guard (2 ≤ lowest && lowest % 2 = 0)
  let cells := (List.range width).flatMap fun w => cellsOfWeight weights width (w + 1)
  return ⟨width, cells.toArray⟩

def directWeights (src : ByteArray) (pos count : Nat) : Array Nat :=
  (Array.range count).map fun i =>
    let b := byteAt src (pos + i / 2)
    if i % 2 = 0 then b / 16 else b % 16

def turns (src : ByteArray) (table : StateTable) : (fuel : Nat) → (state other : Nat) → Backward →
    Array Nat → Option (Array Nat)
  | 0, _, _, _, _ => none
  | fuel + 1, state, other, b, weights =>
    let weights := weights.push (table.symbol state)
    let (state, b) := table.step src state b
    if b.left < 0 then some (weights.push (table.symbol other))
    else turns src table fuel other state b weights

/-- Weights written in an entropy code, in the bytes between `low` and `high`. -/
def codedWeights? (src : ByteArray) (low high : Nat) : Option (Array Nat) := do
  let (table, low) ← StateTable.read? src low high 255 6
  let b ← Backward.open? src low high
  let (first, b) := b.read src table.log
  let (second, b) := b.read src table.log
  guard (0 ≤ b.left)
  let weights ← turns src table 255 first second b #[]
  guard (weights.size ≤ 255)
  return weights

/-- Reads a code between `low` and `high`, and tells where it ends. -/
def read? (src : ByteArray) (low high : Nat) : Option (PrefixCode × Nat) := do
  guard (low < high)
  let header := byteAt src low
  let start := low + 1
  let (weights, next) ←
    if 128 ≤ header then
      let count := header - 127
      let next := start + (count + 1) / 2
      if next ≤ high then some (directWeights src start count, next) else none
    else
      let next := start + header
      if next ≤ high then (codedWeights? src start next).map (·, next) else none
  return (← ofWeights? weights, next)

/-- Decodes `count` symbols. -/
def symbols (code : PrefixCode) (src : ByteArray) : (count : Nat) → Backward → ByteArray →
    ByteArray × Backward
  | 0, b, out => (out, b)
  | count + 1, b, out =>
    let (symbol, length) := code.cells[b.peek src code.width]!
    symbols code src count (b.skip length) (out.push symbol.toUInt8)

/-- Decodes a stream of `count` symbols, which fills the bytes between `low` and `high`. -/
def stream? (code : PrefixCode) (src : ByteArray) (low high count : Nat) (out : ByteArray) :
    Option ByteArray := do
  let b ← Backward.open? src low high
  let (out, b) := code.symbols src count b out
  guard (b.left = 0)
  return out

/-- Decodes `count` symbols in four streams, of which the sizes of three are given. -/
def fourStreams? (code : PrefixCode) (src : ByteArray) (low high count : Nat) :
    Option ByteArray := do
  guard (low + 10 ≤ high)
  let each := (count + 3) / 4
  guard (3 * each ≤ count)
  let end1 := low + 6 + numberAt src low 2
  let end2 := end1 + numberAt src (low + 2) 2
  let end3 := end2 + numberAt src (low + 4) 2
  guard (end3 ≤ high)
  let out ← code.stream? src (low + 6) end1 each .empty
  let out ← code.stream? src end1 end2 each out
  let out ← code.stream? src end2 end3 each out
  code.stream? src end3 high (count - 3 * each) out

end PrefixCode

end Depot.Codec.Zstd
