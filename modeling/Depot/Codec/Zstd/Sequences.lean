import Depot.Codec.Zstd.Literals

/-!
This module contains the second section of a compressed block: the sequences. Each takes some
literals and then repeats some of the data before it.
-/

namespace Depot.Codec.Zstd

/-- The codes of literal lengths: the least length, and the number of bits added to it. -/
def literalLengths : Array (Nat × Nat) :=
  (Array.range 16).map (·, 0) ++ #[
    (16, 1), (18, 1), (20, 1), (22, 1), (24, 2), (28, 2), (32, 3), (40, 3), (48, 4), (64, 6),
    (128, 7), (256, 8), (512, 9), (1024, 10), (2048, 11), (4096, 12), (8192, 13), (16384, 14),
    (32768, 15), (65536, 16)]

/-- The codes of match lengths: the least length, and the number of bits added to it. -/
def matchLengths : Array (Nat × Nat) :=
  (Array.range 32).map (fun n => (n + 3, 0)) ++ #[
    (35, 1), (37, 1), (39, 1), (41, 1), (43, 2), (47, 2), (51, 3), (59, 3), (67, 4), (83, 4),
    (99, 5), (131, 7), (259, 8), (515, 9), (1027, 10), (2051, 11), (4099, 12), (8195, 13),
    (16387, 14), (32771, 15), (65539, 16)]

/-- The table of literal lengths for blocks that bring none. -/
def plainLiteralLengths : StateTable :=
  .ofCounts 6 #[4, 3, 2, 2, 2, 2, 2, 2, 2, 2, 2, 2, 2, 1, 1, 1, 2, 2, 2, 2, 2, 2, 2, 2, 2, 3, 2, 1,
    1, 1, 1, 1, -1, -1, -1, -1]

/-- The table of match lengths for blocks that bring none. -/
def plainMatchLengths : StateTable :=
  .ofCounts 6 #[1, 4, 3, 2, 2, 2, 2, 2, 2, 1, 1, 1, 1, 1, 1, 1, 1, 1, 1, 1, 1, 1, 1, 1, 1, 1, 1, 1,
    1, 1, 1, 1, 1, 1, 1, 1, 1, 1, 1, 1, 1, 1, 1, 1, 1, 1, -1, -1, -1, -1, -1, -1, -1]

/-- The table of offsets for blocks that bring none. -/
def plainOffsets : StateTable :=
  .ofCounts 5 #[1, 1, 1, 1, 1, 1, 2, 2, 2, 1, 1, 1, 1, 1, 1, 1, 1, 1, 1, 1, 1, 1, 1, 1, -1, -1, -1,
    -1, -1]

structure SequenceTables where
  literals : StateTable
  offsets : StateTable
  copies : StateTable

structure LastOffsets where
  first : Nat := 1
  second : Nat := 4
  third : Nat := 8

structure Memory where
  code : Option PrefixCode := none
  tables : Option SequenceTables := none
  offsets : LastOffsets := {}

def LastOffsets.resolve (last : LastOffsets) (value literalLength : Nat) : Nat × LastOffsets :=
  let { first, second, third } := last
  if 3 < value then (value - 3, ⟨value - 3, first, second⟩)
  else
    match value - 1 + (if literalLength = 0 then 1 else 0) with
    | 0 => (first, last)
    | 1 => (second, ⟨second, first, third⟩)
    | 2 => (third, ⟨third, first, second⟩)
    | _ => (first - 1, ⟨first - 1, first, second⟩)

/--
Reads one table: the plain one, a single symbol, a table of its own, or again that of the block
before.
-/
def readTable (src : ByteArray) (mode low high most maxLog : Nat) (plain : StateTable)
    (before : Option StateTable) : Except ZstdFault (StateTable × Nat) :=
  match mode with
  | 0 => .ok (plain, low)
  | 1 =>
    if low < high && byteAt src low ≤ most then .ok (.single (byteAt src low), low + 1)
    else .error .corrupt
  | 2 =>
    match StateTable.read? src low high most maxLog with
    | some read => .ok read
    | none => .error .corrupt
  | _ =>
    match before with
    | some table => .ok (table, low)
    | none => .error .corrupt

def readCount (src : ByteArray) (low high : Nat) : Except ZstdFault (Nat × Nat) :=
  if high ≤ low then .error .sectionSize
  else
    let first := byteAt src low
    if first < 128 then .ok (first, low + 1)
    else if first = 255 then
      if high < low + 3 then .error .sectionSize
      else .ok (numberAt src (low + 1) 2 + 0x7f00, low + 3)
    else if high < low + 2 then .error .sectionSize
    else .ok ((first - 128) * 256 + byteAt src (low + 1), low + 2)

def readTables (src : ByteArray) (low high : Nat) (before : Option SequenceTables) :
    Except ZstdFault (SequenceTables × Nat) := do
  if high < low + 1 then throw .sectionSize
  let modes := byteAt src low
  if modes % 4 ≠ 0 then throw .corrupt
  let (literals, low) ← readTable src (modes / 64) (low + 1) high 35 9 plainLiteralLengths
    (before.map (·.literals))
  let (offsets, low) ← readTable src (modes / 16 % 4) low high 31 8 plainOffsets
    (before.map (·.offsets))
  let (copies, low) ← readTable src (modes / 4 % 4) low high 52 9 plainMatchLengths
    (before.map (·.copies))
  return (⟨literals, offsets, copies⟩, low)

structure Output where
  data : ByteArray
  used : Nat := 0
  offsets : LastOffsets

/-- Repeats `count` bytes from `distance` back. -/
def repeatBack (distance : Nat) : (count : Nat) → ByteArray → ByteArray
  | 0, data => data
  | count + 1, data =>
    let i := data.size - distance
    repeatBack distance count (data.push (if h : i < data.size then data[i] else 0))

/-- Takes literals and repeats data, if there is enough of both. -/
def Output.copy? (o : Output) (literals : ByteArray) (offsetValue literalLength matchLength : Nat) :
    Option Output :=
  let (distance, offsets) := o.offsets.resolve offsetValue literalLength
  let used := o.used + literalLength
  if literals.size < used then none
  else
    let data := o.data ++ literals.extract o.used used
    if distance = 0 || data.size < distance then none
    else some ⟨repeatBack distance matchLength data, used, offsets⟩

def sequences (src literals : ByteArray) (tables : SequenceTables) : (left : Nat) →
    (literal offset copy : Nat) → Backward → Output → Option Output
  | 0, _, _, _, b, o => if b.left = 0 then some o else none
  | left + 1, literal, offset, copy, b, o => do
    let offsetCode := tables.offsets.symbol offset
    let (matchLeast, matchExtra) := matchLengths[tables.copies.symbol copy]!
    let (literalLeast, literalExtra) := literalLengths[tables.literals.symbol literal]!
    let (more, b) := b.read src offsetCode
    let offsetValue := (1 <<< offsetCode) + more
    let (more, b) := b.read src matchExtra
    let matchLength := matchLeast + more
    let (more, b) := b.read src literalExtra
    let literalLength := literalLeast + more
    guard (0 ≤ b.left)
    let o ← o.copy? literals offsetValue literalLength matchLength
    if left = 0 then sequences src literals tables left literal offset copy b o
    else
      let (literal, b) := tables.literals.step src literal b
      let (copy, b) := tables.copies.step src copy b
      let (offset, b) := tables.offsets.step src offset b
      sequences src literals tables left literal offset copy b o

/--
The data after the compressed block between `low` and `high`, and what later blocks need of it. A
block adds at most `limit` bytes.
-/
def readBlock (src : ByteArray) (low high limit : Nat) (memory : Memory) (data : ByteArray) :
    Except ZstdFault (ByteArray × Memory) := do
  let literals ← Literals.read src low high limit memory.code
  let memory := { memory with code := literals.code }
  let (count, low) ← readCount src literals.next high
  if count = 0 then
    if low ≠ high then throw .corrupt
    return (data ++ literals.bytes, memory)
  let (tables, low) ← readTables src low high memory.tables
  let some b := Backward.open? src low high | throw .corrupt
  let (literal, b) := b.read src tables.literals.log
  let (offset, b) := b.read src tables.offsets.log
  let (copy, b) := b.read src tables.copies.log
  match sequences src literals.bytes tables count literal offset copy b
      { data, offsets := memory.offsets } with
  | none => throw .corrupt
  | some o =>
    let out := o.data ++ literals.bytes.extract o.used literals.bytes.size
    if data.size + limit < out.size then throw .corrupt
    return (out, { memory with tables := some tables, offsets := o.offsets })

end Depot.Codec.Zstd
