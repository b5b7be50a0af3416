import Depot.Codec.Tape

/-!
This module contains buffered reading. Reads are served from a buffer as long as it holds enough;
a larger read takes whole blocks past the buffer and then fills it for what is left.
-/

namespace Depot.Codec

structure Buffered where
  pending : ByteArray := .empty
  tape : Tape

namespace Buffered

def blockSize : Nat := 8192

structure Gathered where
  bytes : ByteArray
  ended : Bool

/-- Takes whole blocks of the `wanted` bytes past the buffer. -/
def takeBlocks (wanted : Nat) (acc : ByteArray) (tape : Tape) : Except Fault Gathered × Tape :=
  if wanted < blockSize then (.ok ⟨acc, false⟩, tape)
  else
    match tape.read (wanted / blockSize * blockSize) with
    | (.error e, tape) => (.error e, tape)
    | (.ok got, tape) =>
      if got.size = 0 then (.ok ⟨acc, true⟩, tape)
      else takeBlocks (wanted - got.size) (acc ++ got) tape
termination_by wanted
decreasing_by unfold blockSize at *; omega

/-- Fills the buffer, of which `filled` bytes are in use, until `wanted` more bytes are there. -/
def fill (wanted filled : Nat) (acc : ByteArray) (tape : Tape) :
    Except Fault ByteArray × Buffered :=
  if wanted = 0 || blockSize ≤ filled then (.ok acc, ⟨.empty, tape⟩)
  else
    match tape.read (blockSize - filled) with
    | (.error e, tape) => (.error e, ⟨.empty, tape⟩)
    | (.ok got, tape) =>
      if got.size = 0 then (.ok acc, ⟨.empty, tape⟩)
      else if wanted ≤ got.size then
        (.ok (acc ++ got.extract 0 wanted), ⟨got.extract wanted got.size, tape⟩)
      else fill (wanted - got.size) (filled + got.size) (acc ++ got) tape
termination_by wanted
decreasing_by omega

/--
Reads `size` bytes, fewer only at the end. A read that meets an error loses what it has gathered.
-/
def read (b : Buffered) (size : Nat) : Except Fault ByteArray × Buffered :=
  if size ≤ b.pending.size then
    (.ok (b.pending.extract 0 size), { b with pending := b.pending.extract size b.pending.size })
  else
    match takeBlocks (size - b.pending.size) b.pending b.tape with
    | (.error e, tape) => (.error e, ⟨.empty, tape⟩)
    | (.ok ⟨acc, true⟩, tape) => (.ok acc, ⟨.empty, tape⟩)
    | (.ok ⟨acc, false⟩, tape) => fill (size - acc.size) 0 acc tape

def readAll (b : Buffered) : Except Fault ByteArray × Buffered :=
  match b.tape.readAll with
  | (.error e, tape) => (.error e, ⟨.empty, tape⟩)
  | (.ok rest, tape) => (.ok (b.pending ++ rest), ⟨.empty, tape⟩)

end Buffered

end Depot.Codec
